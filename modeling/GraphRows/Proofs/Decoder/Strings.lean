import GraphRows.Proofs.Decoder.Entries
import GraphRows.Proofs.Reference.Tokens

/-!
# Strings are read as they were written

One character after the `$` tells texts, references, promises, collections and scalars apart, and a
lowercase hexadecimal digit is none of the markers. So whatever a string was written for is what the
decoder makes of it, and two things are never written alike.

## Main result

* `strings_read_as_written`
-/

namespace GraphRows

namespace Token

/-- A token with a string of its own: its id has 32 bits, the keys of its path hold no colon, and a
number is the one that its word stands for. Binary data has rows but no tokens of its own. -/
def IsWritten : Token → Prop
  | .number x => x ∈ [.nan, .infinity, .negInfinity, .negZero]
  | .row r => r.row < Nat.pow 2 32 ∧ ∀ key ∈ r.path, ':' ∉ key.toList
  | .promise id | .derived _ id => id < Nat.pow 2 32
  | .date t => Instant.parse? t.format = some t
  | .binary .. => False
  | _ => True

theorem parse_render_temporary (id : String) :
    parse (render (.temporary id)) = .ok (.temporary id) := by
  have hlist : (render (.temporary id)).toList = '$' :: 'T' :: id.toList := by simp [render]
  rw [parse_marked hlist (by decide)]
  simp [readMarked]

/-- **Every token reads back.** -/
theorem parse_render {t : Token} (h : t.IsWritten) : parse (render t) = .ok t := by
  cases t with
  | text s => exact parse_escape s
  | undefined => exact parse_render_undefined
  | number x =>
    have hwords : ∀ x ∈ [Double.nan, .infinity, .negInfinity, .negZero],
        parse (render (.number x)) = .ok (.number x) := by
      decide +kernel
    exact hwords x h
  | row r => exact parse_render_row h.1 h.2
  | promise id => exact parse_render_promise h
  | derived kind id => exact parse_render_derived h kind
  | binary kind id => exact h.elim
  | symbol name => exact parse_render_symbol name
  | temporary id => exact parse_render_temporary id
  | date t => exact parse_render_date h
  | bigint n => exact parse_render_bigint n

theorem eq_of_render_eq {t u : Token} (ht : t.IsWritten) (hu : u.IsWritten)
    (h : render t = render u) : t = u := by
  have hread := parse_render ht
  rw [h, parse_render hu] at hread
  exact (Except.ok.inj hread).symm

end Token

namespace DecodeM

theorem revive_str {s : String} {t : Token} (h : Token.parse s = .ok t) (target : Nat)
    (hole : Hole) : revive target hole (.str s) = reviveToken target hole t := by
  unfold revive
  rw [h]

end DecodeM

open DecodeM Token

/-- **Strings are read as what they were written for**, anywhere in the draft of any entry. A text
is read as itself, without a look at any entry. A plain reference goes to its row and along its
path; a promise is the handle of its row; a collection, a blob or a server reference is made of its
row. Integers, symbols and the names of temporaries are what stands behind the marker, and the words
stand for their values, a NaN for any other. No two things have one string. -/
theorem strings_read_as_written (target : Nat) (hole : Hole) :
    (∀ s x, revive target hole (.str (escape s)) x = (.ok (.string s), x)) ∧
    (∀ id path, id < Nat.pow 2 32 → (∀ key ∈ path, ':' ∉ key.toList) →
      revive target hole (.str (render (.row ⟨id, path⟩))) = reference target id path .plain hole) ∧
    (∀ id x, id < Nat.pow 2 32 → revive target hole (.str (render (.promise id))) x =
      (.ok (.cell ((entryOf id x).2.decoder.entry (entryOf id x).1).handle), (entryOf id x).2)) ∧
    (∀ kind id, id < Nat.pow 2 32 →
      revive target hole (.str (render (.derived kind id))) =
        reference target id [] (.derived kind) hole) ∧
    (∀ n x, revive target hole (.str (render (.bigint n))) x = (.ok (.bigint n), x)) ∧
    (∀ name x, revive target hole (.str (render (.symbol name))) x = (.ok (.symbol name), x)) ∧
    (∀ name x set, x.decoder.options.temporaries =
      some set → revive target hole (.str (render (.temporary name))) x =
      (.ok (x.store.resolveTemporary set name).1,
        { x with store := (x.store.resolveTemporary set name).2 })) ∧
    (∀ x, revive target hole (.str (render .undefined)) x = (.ok .undefined, x)) ∧
    (∀ n : Double, n.isNaN ∨ n.isInfinite ∨ n = .negZero →
      ∃ m, n.sameValue m ∧ ∀ x, revive target hole (.str (render (.number n))) x =
        (.ok (.number m), x)) ∧
    ∀ t u : Token, t.IsWritten → u.IsWritten → render t = render u → t = u := by
  refine ⟨fun s x => ?_, fun id path hid hpath => ?_, fun id x hid => ?_, fun kind id hid => ?_,
    fun n x => ?_, fun name x => ?_,
    fun name x set hset => ?_, fun x => ?_, fun n hn => ?_, fun t u => eq_of_render_eq⟩
  · rw [revive_str (parse_escape s)]
    rfl
  · rw [revive_str (parse_render_row hid hpath)]
    rfl
  · rw [revive_str (parse_render_promise hid)]
    rfl
  · rw [revive_str (parse_render_derived hid kind)]
    rfl
  · rw [revive_str (parse_render_bigint n)]
    rfl
  · rw [revive_str (parse_render_symbol name)]
    rfl
  · rw [revive_str (parse_render_temporary name), reviveToken, decoder_bind, hset]
    rfl
  · rw [revive_str parse_render_undefined]
    rfl
  · obtain ⟨m, hm, hsame⟩ := parse_render_number hn
    refine ⟨m, hsame, fun x => ?_⟩
    rw [revive_str hm]
    rfl

end GraphRows
