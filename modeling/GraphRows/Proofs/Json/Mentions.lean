import GraphRows.Proofs.Json.ReadBack
import GraphRows.Proofs.Reference.Tokens

/-!
# The rows a payload speaks of

A payload mentions a row when one of its strings, anywhere inside, is a token that speaks of it; the
row is a referent if the token also takes its value. Printing and reading may lose a mention (a
repeated key, a number out of range further on, nesting too deep) but never makes one up.

## Main results

* `mentions_tokenJson`: what a written token mentions
* `mentions_of_read_print`: what was read mentions nothing that was not written
-/

namespace GraphRows.Json

mutual

/-- A token of the payload speaks of the row `id`. -/
def Mentions (id : Nat) : Json → Prop
  | .str s => ∃ t, Token.parse s = .ok t ∧ t.row? = some id
  | .arr items => MentionsItem id items
  | .obj fields => MentionsField id fields
  | _ => False

/-- One of some values mentions the row `id`. -/
def MentionsItem (id : Nat) : List Json → Prop
  | [] => False
  | j :: rest => Mentions id j ∨ MentionsItem id rest

/-- The value of one of some fields mentions the row `id`. -/
def MentionsField (id : Nat) : List (String × Json) → Prop
  | [] => False
  | (_, j) :: rest => Mentions id j ∨ MentionsField id rest

end

mutual

/-- The rows whose values a payload takes, in the order it is read. -/
def referents : Json → List Nat
  | .str s => ((Token.parse s).toOption.bind Token.referent?).toList
  | .arr items => itemReferents items
  | .obj fields => fieldReferents fields
  | _ => []

/-- The rows whose values some values take. -/
def itemReferents : List Json → List Nat
  | [] => []
  | j :: rest => referents j ++ itemReferents rest

/-- The rows whose values some fields take. -/
def fieldReferents : List (String × Json) → List Nat
  | [] => []
  | (_, j) :: rest => referents j ++ fieldReferents rest

end

theorem mem_referents_str {s : String} {t : Token} {n : Nat} (ht : Token.parse s = .ok t)
    (hn : t.referent? = some n) : n ∈ referents (.str s) := by
  simp [referents, ht, Except.toOption, hn]

theorem mentionsItem_iff {id : Nat} {js : List Json} :
    MentionsItem id js ↔ ∃ j ∈ js, Mentions id j := by
  induction js with
  | nil => simp [MentionsItem]
  | cons j rest ih => simp [MentionsItem, ih]

theorem mentionsField_iff {id : Nat} {fs : List (String × Json)} :
    MentionsField id fs ↔ ∃ f ∈ fs, Mentions id f.2 := by
  induction fs with
  | nil => simp [MentionsField]
  | cons f rest ih => simp [MentionsField, ih]

/-- A written token mentions the row it speaks of and no other. -/
theorem mentions_tokenJson {t : Token} {id : Nat} (h : Mentions id (.str t.render)) :
    t.row? = some id := by
  obtain ⟨u, hu, hid⟩ := h
  exact Token.row?_of_parse_render hu hid

theorem not_mentions_numberValue {negative : Bool} {whole : List Char} {f : Option (List Char)}
    {x : Option Int} {j : Json} (h : numberValue negative whole f x = .ok j) (id : Nat) :
    ¬ Mentions id j := by
  unfold numberValue at h
  extract_lets digits n signed at h
  split at h
  · obtain rfl := Except.ok.inj h
    exact fun hm => hm
  · split at h
    · obtain rfl := Except.ok.inj h
      exact fun hm => hm
    · cases h

theorem not_mentions_numberText {negative : Bool} {t : NumberText} {j : Json}
    (h : t.read negative = .ok j) (id : Nat) : ¬ Mentions id j := by
  unfold NumberText.read at h
  split at h
  · cases h
  · exact not_mentions_numberValue h id

theorem not_mentions_floatBack {x : Double} {j : Json} (h : floatBack x = .ok j) (id : Nat) :
    ¬ Mentions id j := by
  by_cases hx : x.isFinite
  · obtain ⟨t, -, ht⟩ := chars_float hx
    exact not_mentions_numberText (ht ▸ h) id
  · rw [floatBack, if_neg hx] at h
    obtain rfl := Except.ok.inj h
    exact fun hm => hm

mutual

theorem mentions_of_readBack {id : Nat} : ∀ {j k : Json} {limit : Nat}, readBack j limit = .ok k →
    Mentions id k → Mentions id j
  | .null, _, _, h, hm => by
    obtain rfl := Except.ok.inj h
    exact hm
  | .bool _, _, _, h, hm => by
    obtain rfl := Except.ok.inj h
    exact hm
  | .int _, _, _, h, hm => (not_mentions_numberText h id hm).elim
  | .float _, _, _, h, hm => (not_mentions_floatBack h id hm).elim
  | .str _, _, _, h, hm => by
    obtain rfl := Except.ok.inj h
    exact hm
  | .arr items, k, 0, h, _ => by simp [readBack] at h
  | .arr items, k, limit + 1, h, hm => by
    rw [readBack] at h
    cases hitems : readBackItems items limit with
    | error e => rw [hitems] at h; cases h
    | ok js =>
      rw [hitems] at h
      obtain rfl := Except.ok.inj h
      exact mentionsItem_of_readBack hitems hm
  | .obj fields, k, 0, h, _ => by simp [readBack] at h
  | .obj fields, k, limit + 1, h, hm => by
    rw [readBack] at h
    cases hfields : readBackFields fields limit with
    | error e => rw [hfields] at h; cases h
    | ok fs =>
      rw [hfields] at h
      obtain rfl := Except.ok.inj h
      exact mentionsField_of_readBack hfields hm

theorem mentionsItem_of_readBack {id : Nat} : ∀ {js ks : List Json} {limit : Nat},
    readBackItems js limit = .ok ks → MentionsItem id ks → MentionsItem id js
  | [], _, _, h, hm => by
    obtain rfl := Except.ok.inj h
    exact hm
  | j :: js, ks, limit, h, hm => by
    rw [readBackItems] at h
    cases hj : readBack j limit with
    | error e => rw [hj] at h; cases h
    | ok k =>
      cases hjs : readBackItems js limit with
      | error e => rw [hj, hjs] at h; cases h
      | ok rest =>
        rw [hj, hjs] at h
        obtain rfl := Except.ok.inj h
        exact hm.imp (mentions_of_readBack hj) (mentionsItem_of_readBack hjs)

theorem mentionsField_of_readBack {id : Nat} : ∀ {fs gs : List (String × Json)} {limit : Nat},
    readBackFields fs limit = .ok gs → MentionsField id gs → MentionsField id fs
  | [], _, _, h, hm => by
    obtain rfl := Except.ok.inj h
    exact hm
  | (key, j) :: fs, gs, limit, h, hm => by
    rw [readBackFields] at h
    cases hj : readBack j limit with
    | error e => rw [hj] at h; cases h
    | ok k =>
      cases hfs : readBackFields fs limit with
      | error e => rw [hj, hfs] at h; cases h
      | ok rest =>
        rw [hj, hfs] at h
        obtain rfl := Except.ok.inj h
        exact hm.imp (mentions_of_readBack hj) (mentionsField_of_readBack hfs)

end

theorem mentionsField_of_setField {id : Nat} {key : String} {j : Json} {fs : List (String × Json)}
    (h : MentionsField id (setField key j fs)) : Mentions id j ∨ MentionsField id fs := by
  induction fs with
  | nil => exact h.imp_right False.elim
  | cons f rest ih =>
    obtain ⟨k, v⟩ := f
    rw [setField] at h
    split at h
    · exact h.imp_right .inr
    · rcases h with h | h
      · exact .inr (.inl h)
      · exact (ih h).imp_right .inr

theorem mentionsField_of_mergeFields {id : Nat} {fs : List (String × Json)}
    (h : MentionsField id (mergeFields fs)) : MentionsField id fs := by
  have main : ∀ (todo acc : List (String × Json)),
      MentionsField id (todo.foldl (fun acc field => setField field.1 field.2 acc) acc) →
        MentionsField id acc ∨ MentionsField id todo := by
    intro todo
    induction todo with
    | nil => exact fun acc h => .inl h
    | cons f rest ih =>
      intro acc h
      obtain ⟨k, v⟩ := f
      rcases ih _ h with h | h
      · rcases mentionsField_of_setField h with h | h
        · exact .inr (.inl h)
        · exact .inl h
      · exact .inr (.inr h)
  exact (main fs [] h).resolve_left fun h => h

mutual

theorem mentions_of_merge {id : Nat} : ∀ {j : Json}, Mentions id (merge j) → Mentions id j
  | .null, h => h
  | .bool _, h => h
  | .int _, h => h
  | .float _, h => h
  | .str _, h => h
  | .arr _, h => mentionsItem_of_mergeList h
  | .obj _, h => mentionsField_of_mergePairs (mentionsField_of_mergeFields h)

theorem mentionsItem_of_mergeList {id : Nat} : ∀ {js : List Json}, MentionsItem id (mergeList js) →
    MentionsItem id js
  | [], h => h
  | _ :: _, h => h.imp mentions_of_merge mentionsItem_of_mergeList

theorem mentionsField_of_mergePairs {id : Nat} : ∀ {fs : List (String × Json)},
    MentionsField id (mergePairs fs) → MentionsField id fs
  | [], h => h
  | (_, _) :: _, h => h.imp mentions_of_merge mentionsField_of_mergePairs

end

/-- **Reading makes up no mentions**: what a printed payload reads as speaks of rows the payload
speaks of. -/
theorem mentions_of_read_print {j k : Json} (h : read (print j) = .ok k) {id : Nat}
    (hm : Mentions id k) : Mentions id j := by
  rw [read_print] at h
  cases hj : readBack j depthLimit with
  | error e => rw [hj] at h; cases h
  | ok back =>
    rw [hj] at h
    obtain rfl := Except.ok.inj h
    exact mentions_of_readBack hj (mentions_of_merge hm)

end GraphRows.Json
