import FlagStack.Proofs.SpelledContainers
import FlagStack.Shape.Reader

/-!
# Texts that are read are spelled

No shape accepts a text that is not of the grammar: what its reader takes from the text is
the spelling of a value with blanks in front of it, wherever in the text it stops.

**Results.**
* `Shape.spelled_read`: the reader of a shape.
* `Shape.exists_document_of_decode`: whole texts.
-/

namespace FlagStack

open Json

section Shapes

variable {α β γ : Type} {s rest : List Char}

theorem exists_of_nested
    {room : Nat} {inside : Nat → Reader α} {a : α} (h : nested room inside s = .ok (a, rest)) :
    ∃ r, inside r s = .ok (a, rest) := by
  cases room with
  | zero => cases h
  | succ room => exact ⟨room, h⟩

theorem spelled_readText
    (expected : String) :
    (Shape.readText expected).Spelled := by
  intro s content rest h
  rw [Shape.readText] at h
  split at h
  · cases h
  · next hskip =>
      obtain ⟨gap, rfl⟩ := exists_gap_of_skipBlanks hskip
      obtain ⟨pieces, rfl⟩ := exists_content_of_readString h
      exact ⟨gap, .string pieces, by simp [Spelling.text]⟩
  · cases h

theorem spelled_readCount :
    Shape.readCount.Spelled := by
  intro s n rest h
  rw [Shape.readCount] at h
  split at h
  · cases h
  · obtain ⟨gap, hgap⟩ := exists_gap s
    split at h
    · obtain ⟨⟨m, left⟩, hscan, h⟩ := bind_eq_ok_iff.1 h
      obtain ⟨value, -, h⟩ := bind_eq_ok_iff.1 h
      obtain ⟨spelled, hspelled⟩ := exists_number_of_scan hscan
      split at h
      · split at h
        · cases h
          exact ⟨gap, .number spelled, by rw [hgap, hspelled]; rfl⟩
        · cases h
      · cases h
    · cases h

theorem exists_null_of_literalRest
    (h : literalRest ['u', 'l', 'l'] s = .ok rest) :
    'n' :: s = (Spelling.literal .null).text ++ rest := by
  rw [eq_append_of_literalRest h]
  rfl

theorem spelled_readOption
    {reader : Reader α} (h : reader.Spelled) :
    (Shape.readOption reader).Spelled := by
  intro s a rest hread
  rw [Shape.readOption] at hread
  split at hread
  · next hskip =>
      obtain ⟨left, hnull, hread⟩ := bind_eq_ok_iff.1 hread
      cases hread
      obtain ⟨gap, rfl⟩ := exists_gap_of_skipBlanks hskip
      exact ⟨gap, .literal .null, by rw [exists_null_of_literalRest hnull]⟩
  · obtain ⟨⟨b, left⟩, hb, hread⟩ := bind_eq_ok_iff.1 hread
    cases hread
    obtain ⟨gap, hgap⟩ := exists_gap s
    obtain ⟨gap', v, hv⟩ := h _ _ _ hb
    exact ⟨gap.append gap', v, by rw [hgap, hv]; simp [Blanks.append]⟩

theorem spelled_readUnit :
    Shape.readUnit.Spelled := by
  intro s a rest hread
  rw [Shape.readUnit] at hread
  split at hread
  · cases hread
  · next hskip =>
      obtain ⟨left, hnull, hread⟩ := bind_eq_ok_iff.1 hread
      cases hread
      obtain ⟨gap, rfl⟩ := exists_gap_of_skipBlanks hskip
      exact ⟨gap, .literal .null, by rw [exists_null_of_literalRest hnull]⟩
  · cases hread

theorem exists_gap_of_closeAlternative
    (h : Shape.closeAlternative s = .ok ((), rest)) :
    ∃ gap : Blanks, s = gap.text ++ '\x7d' :: rest := by
  rw [Shape.closeAlternative] at h
  split at h
  · cases h
  · next hskip =>
      cases h
      exact exists_gap_of_skipBlanks hskip
  · cases h

theorem still_pick
    (names : List (String × α)) (name : String) :
    Reader.Still (liftM (Shape.pick names name)) := by
  intro s a rest h
  obtain ⟨b, -, hrest⟩ := bind_eq_ok_iff.1 h
  cases hrest
  rfl

theorem exists_label_of_alternative
    {names : List (String × γ)} {a : γ} {t : List Char}
    (h : Shape.alternative names s = .ok (a, t)) :
    ∃ label : Label, s = label.before.text ++ '"' :: (contentText label.key ++ '"' ::
      (label.after.text ++ ':' :: t)) := by
  rw [Shape.alternative] at h
  obtain ⟨key, left, hkey, h⟩ := exists_of_bind_eq_ok h
  obtain ⟨b, left', hpick, h⟩ := exists_of_bind_eq_ok h
  obtain ⟨_, left'', hcolon, h⟩ := exists_of_bind_eq_ok h
  cases h
  obtain rfl := still_pick names key _ _ _ hpick
  obtain ⟨after, rfl⟩ := exists_gap_of_colon hcolon
  rw [Shape.soleKey] at hkey
  split at hkey
  · cases hkey
  · next hskip =>
      obtain ⟨before, rfl⟩ := exists_gap_of_skipBlanks hskip
      obtain ⟨content, rfl⟩ := exists_content_of_readString hkey
      exact ⟨⟨before, content, after⟩, rfl⟩
  · cases hkey
  · cases hkey

/-- An object with one member, behind its colon. -/
theorem exists_of_alternative
    {names : List (String × γ)} {a : γ} {t : List Char}
    (hlabel : Shape.alternative names s = .ok (a, t)) {reader : Reader β}
    (hreader : reader.Spelled) {b : β}
    (h : (do
      let b ← reader
      Shape.closeAlternative
      return b : Reader β) t = .ok (b, rest)) :
    ∃ v : Spelling, '\x7b' :: s = v.text ++ rest := by
  obtain ⟨b, left', hb, h⟩ := exists_of_bind_eq_ok h
  obtain ⟨_, left'', hclose, h⟩ := exists_of_bind_eq_ok h
  cases h
  obtain ⟨inner, rfl⟩ := exists_gap_of_closeAlternative hclose
  obtain ⟨gap, v, rfl⟩ := hreader _ _ _ hb
  obtain ⟨label, rfl⟩ := exists_label_of_alternative hlabel
  exact ⟨.object [(label, ⟨gap, .empty⟩, v)] inner,
    by simp [Spelling.text, membersText, separator]⟩

theorem spelled_readAlternative
    {bare tagged : Reader α} (hbare : bare.Spelled)
    (htagged : ∀ s a rest, tagged s = .ok (a, rest) →
      ∃ v : Spelling, '\x7b' :: s = v.text ++ rest) :
    (Shape.readAlternative bare tagged).Spelled := by
  intro s a rest h
  rw [Shape.readAlternative] at h
  split at h
  · cases h
  · next hskip =>
      obtain ⟨gap, rfl⟩ := exists_gap_of_skipBlanks hskip
      obtain ⟨v, hv⟩ := htagged _ _ _ h
      exact ⟨gap, v, by rw [hv]⟩
  · next hskip =>
      obtain ⟨gap, rfl⟩ := exists_gap_of_skipBlanks hskip
      obtain ⟨gap', v, hv⟩ := hbare _ _ _ h
      exact ⟨gap.append gap', v, by rw [hv]; simp [Blanks.append]⟩
  · cases h

theorem spelled_readChoice
    (names : List (String × α)) (room : Nat) :
    (Shape.readChoice names room).Spelled := by
  refine spelled_readAlternative ?_ ?_
  · exact spelled_bind (spelled_readText _) fun name => still_pick names name
  · intro s a rest h
    obtain ⟨r, h⟩ := exists_of_nested h
    obtain ⟨b, t, hlabel, h⟩ := exists_of_bind_eq_ok h
    have hreader : Reader.Spelled (do Shape.readUnit; return b : Reader α) :=
      spelled_bind spelled_readUnit fun _ => still_pure b
    have hclose : (do
        let c ← (do Shape.readUnit; return b : Reader α)
        Shape.closeAlternative
        return c : Reader α) t = .ok (a, rest) := by
      simpa only [bind_assoc, pure_bind] using h
    exact exists_of_alternative hlabel hreader hclose

theorem exists_of_readEntry
    (key : String) (t : Table String) (s : List Char) (next : Table String) (rest : List Char)
    (h : Shape.readEntry key t s = .ok (next, rest)) :
    ∃ after gap v,
      s = Blanks.text after ++ ':' :: (Blanks.text gap ++ (Spelling.text v ++ rest)) := by
  obtain ⟨_, left, hcolon, h⟩ := exists_of_bind_eq_ok h
  obtain ⟨content, left', hread, h⟩ := exists_of_bind_eq_ok h
  cases h
  obtain ⟨after, rfl⟩ := exists_gap_of_colon hcolon
  obtain ⟨gap, v, rfl⟩ := spelled_readText _ _ _ _ hread
  exact ⟨after, gap, v, rfl⟩

theorem spelled_readContainer
    {bracket : Char} {expected : String} {room : Nat} {inside : Nat → Reader α}
    (h : ∀ r s a rest, inside r s = .ok (a, rest) → ∃ v : Spelling, bracket :: s = v.text ++ rest) :
    (Shape.readContainer bracket expected room inside).Spelled := by
  intro s a rest hread
  rw [Shape.readContainer] at hread
  split at hread
  · cases hread
  · next c tail hskip =>
      split at hread
      · next hc =>
          obtain ⟨gap, rfl⟩ := exists_gap_of_skipBlanks hskip
          obtain ⟨r, hread⟩ := exists_of_nested hread
          obtain ⟨v, hv⟩ := h r _ _ _ hread
          exact ⟨gap, v, by rw [hc, hv]⟩
      · cases hread

theorem Fields.still_collect :
    {σ τ : Type} → (fields : Fields σ τ) → (slots : τ) → Reader.Still (fields.collect slots)
  | _, _, .nil, _ => still_pure _
  | _, _, @Fields.cons α _ _ field _ rest, (slot, slots) => by
      have hrest : ∀ a : α, Reader.Still (do return (a, ← rest.collect slots)) :=
        fun a => still_bind (rest.still_collect slots) fun values => still_pure (a, values)
      cases slot with
      | some a => exact hrest a
      | none =>
          obtain ⟨name, aliases, absence, description⟩ := field
          cases absence with
          | refused => exact still_bind (still_throw _) hrest
          | omitted a => exact hrest a
          | defaulted a => exact hrest a

/-- No item stands in front of a bracket. -/
theorem eq_nil_of_bracket
    {gap inner : Blanks} {items : List (Gaps × Spelling)} {tail : List Char}
    (h : ']' :: tail = gap.text ++ (itemsText inner false items ++ rest)) :
    items = [] := by
  cases items with
  | nil => rfl
  | cons x items =>
      have hskip := congrArg skipBlanks h
      simp only [itemsText, separator, Bool.false_eq_true, if_false, List.cons_append] at hskip
      rw [skipBlanks_of_head rfl, skipBlanks_gap_cons gap rfl] at hskip
      cases hskip

mutual

/-- What the reader of a shape takes is a value. -/
theorem Shape.spelled_read
    (bound : Nat) :
    {α : Type} → (shape : Shape α) → (room : Nat) → (shape.read bound room).Spelled
  | _, .text expected _ accept _, room => by
      rw [Shape.read]
      refine spelled_bind (spelled_readText expected) fun s => ?_
      cases accept s with
      | ok a => exact still_pure a
      | error reason => exact still_throw _
  | _, .count, room => by
      rw [Shape.read]
      exact spelled_readCount
  | _, .anything, room => by
      rw [Shape.read]
      exact spelled_readValue bound room
  | _, .choice names _, room => by
      rw [Shape.read]
      exact spelled_readChoice names room
  | _, .option shape, room => by
      rw [Shape.read]
      exact spelled_readOption (shape.spelled_read bound room)
  | _, .list shape, room => by
      rw [Shape.read]
      exact spelled_readContainer fun r s as rest h =>
        exists_array (exists_items (shape.spelled_read bound r) h)
  | _, .textTable, room => by
      rw [Shape.read]
      exact spelled_readContainer fun r s t rest h =>
        exists_object (exists_members exists_of_readEntry h)
  | _, .either left leftShape right rightShape, room => by
      rw [Shape.read]
      refine spelled_readAlternative ?_ ?_
      · exact spelled_bind (spelled_readText _) fun name =>
          still_bind (still_pick _ name) fun _ => still_throw _
      · intro s a rest h
        obtain ⟨r, h⟩ := exists_of_nested h
        obtain ⟨isLeft, t, hlabel, h⟩ := exists_of_bind_eq_ok h
        cases isLeft with
        | true =>
            exact exists_of_alternative hlabel
              (spelled_map (leftShape.spelled_read bound r) Sum.inl) h
        | false =>
            exact exists_of_alternative hlabel 
              (spelled_map (rightShape.spelled_read bound r) Sum.inr) h
  | _, .record name fields build _, room => by
      rw [Shape.read]
      intro s a rest h
      simp only at h
      split at h
      · next hskip =>
          obtain ⟨r, h⟩ := exists_of_nested h
          obtain ⟨values, t, hread, h⟩ := exists_of_bind_eq_ok h
          obtain ⟨_, t', hclose, h⟩ := exists_of_bind_eq_ok h
          cases h
          obtain ⟨gap, rfl⟩ := exists_gap_of_skipBlanks hskip
          obtain ⟨v, hv⟩ := exists_array
            (fields.exists_of_readItems bound r name fields.count 0 _ values t rest hread hclose)
          exact ⟨gap, v, by rw [hv]⟩
      · next hskip =>
          obtain ⟨r, h⟩ := exists_of_nested h
          obtain ⟨slots, t, hread, h⟩ := exists_of_bind_eq_ok h
          obtain ⟨values, t', hcollect, h⟩ := exists_of_bind_eq_ok h
          cases h
          obtain rfl := fields.still_collect slots _ _ _ hcollect
          obtain ⟨gap, rfl⟩ := exists_gap_of_skipBlanks hskip
          obtain ⟨v, hv⟩ := exists_object
            (exists_members (fun key slots => fields.exists_of_readMember bound r key slots) hread)
          exact ⟨gap, v, by rw [hv]⟩
      · cases h
      · cases h
  | _, .checked shape accept _, room => by
      rw [Shape.read]
      refine spelled_bind (shape.spelled_read bound room) fun a => ?_
      cases accept a with
      | ok b => exact still_pure b
      | error reason => exact still_throw _
  | _, .named _ _ shape, room => by
      rw [Shape.read]
      exact shape.spelled_read bound room

/-- What is taken behind a key is a colon and a value, also where no field answers. -/
theorem Fields.exists_of_readMember
    (bound room : Nat) :
    {σ τ : Type} → (fields : Fields σ τ) → (key : String) → (slots : τ) → (s : List Char) →
      (next : τ) → (rest : List Char) →
      fields.readMember bound room key slots s = .ok (next, rest) →
      ∃ after gap v, s = Blanks.text after ++ ':' :: (Blanks.text gap ++ (Spelling.text v ++ rest))
  | _, _, .nil, key, slots, s, next, rest, h => by
      rw [Fields.readMember] at h
      obtain ⟨_, left, hcolon, h⟩ := exists_of_bind_eq_ok h
      obtain ⟨_, left', hskip, h⟩ := exists_of_bind_eq_ok h
      cases h
      obtain ⟨after, rfl⟩ := exists_gap_of_colon hcolon
      obtain ⟨gap, v, rfl⟩ := spelled_skipValue bound _ _ _ hskip
      exact ⟨after, gap, v, rfl⟩
  | _, _, .cons field shape others, key, (slot, slots), s, next, rest, h => by
      rw [Fields.readMember] at h
      split at h
      · split at h
        · cases h
        · obtain ⟨_, left, hcolon, h⟩ := exists_of_bind_eq_ok h
          obtain ⟨a, left', hread, h⟩ := exists_of_bind_eq_ok h
          cases h
          obtain ⟨after, rfl⟩ := exists_gap_of_colon hcolon
          obtain ⟨gap, v, rfl⟩ := shape.spelled_read bound room _ _ _ hread
          exact ⟨after, gap, v, rfl⟩
      · obtain ⟨next', left, hread, h⟩ := exists_of_bind_eq_ok h
        cases h
        exact others.exists_of_readMember bound room key slots s next' rest hread

/-- What is taken for the fields of an array are its items, up to the bracket. -/
theorem Fields.exists_of_readItems
    (bound room : Nat) (name : String) (total : Nat) :
    {σ τ : Type} → (fields : Fields σ τ) → (index : Nat) → (s : List Char) → (values : σ) →
      (t rest : List Char) → fields.readItems bound room name total index s = .ok (values, t) →
      closeList t = .ok ((), rest) →
      ∃ gap inner items, s = Blanks.text gap ++ (itemsText inner (index == 0) items ++ rest)
  | _, _, .nil, index, s, values, t, rest, h, hclose => by
      cases h
      obtain ⟨gap, rfl⟩ := exists_gap_of_closeList hclose
      exact ⟨gap, .empty, [], rfl⟩
  | _, _, .cons field shape others, index, s, values, t, rest, h, hclose => by
      rw [Fields.readItems] at h
      obtain ⟨more, left, hmore, hrest⟩ := exists_of_bind_eq_ok h
      cases more with
      | true =>
          obtain ⟨a, left', hread, hrest⟩ := exists_of_bind_eq_ok hrest
          obtain ⟨values', t', hitems, hrest⟩ := exists_of_bind_eq_ok hrest
          cases hrest
          obtain ⟨gap, before, rfl⟩ := exists_gaps_of_nextItem hmore
          obtain ⟨after, inner, items, rfl⟩ :=
            others.exists_of_readItems bound room name total (index + 1) left' values' t rest hitems
              hclose
          obtain ⟨gap', v, rfl⟩ := shape.spelled_read bound room _ _ _ hread
          exact ⟨gap, inner, (⟨before.append gap', after⟩, v) :: items,
            by simp [itemsText, Blanks.append]⟩
      | false =>
          obtain ⟨gap, rfl, tail, htail⟩ := exists_gap_of_nextItem hmore
          obtain ⟨key, aliases, absence, description⟩ := field
          cases absence with
          | refused => cases hrest
          | omitted a => cases hrest
          | defaulted a =>
              obtain ⟨b, left', hb, hrest⟩ := exists_of_bind_eq_ok hrest
              cases hb
              obtain ⟨values', t', hitems, hend⟩ := exists_of_bind_eq_ok hrest
              cases hend
              obtain ⟨gap', inner, items, hleft⟩ :=
                others.exists_of_readItems bound room name total (index + 1) left values' t rest
                  hitems hclose
              -- Behind the bracket no item follows, so it does not matter which one is first.
              obtain rfl : items = [] := eq_nil_of_bracket (htail.symm.trans hleft)
              refine ⟨gap.append gap', inner, [], ?_⟩
              rw [hleft]
              simp [itemsText, Blanks.append]

end

/-- A text that is decoded is the text of a value, with blanks around it. -/
theorem Shape.exists_document_of_decode
    (shape : Shape α) {text : String} {a : α} (h : shape.decode text = .ok a) :
    ∃ lead v trail, text = Spelling.document lead v trail := by
  obtain ⟨⟨b, rest⟩, hread, h⟩ := bind_eq_ok_iff.1 h
  obtain ⟨⟨_, last⟩, hend, -⟩ := bind_eq_ok_iff.1 h
  obtain ⟨lead, v, htext⟩ := shape.spelled_read _ _ _ _ _ hread
  obtain ⟨trail, htrail⟩ := exists_gap rest
  rw [atEnd] at hend
  split at hend
  · next hskip =>
      refine ⟨lead, v, trail, ?_⟩
      rw [hskip, List.append_nil] at htrail
      rw [Spelling.document, ← htrail, ← htext, String.ofList_toList]
  · cases hend

end Shapes

end FlagStack
