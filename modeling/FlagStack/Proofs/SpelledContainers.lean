import FlagStack.Proofs.SpelledTokens
import FlagStack.Json.Skip

/-!
# Containers that are read are spelled

What a reader takes from a text is the spelling of a value with blanks in front of it, if
this is so of the readers that it is put together from.  Where a value is passed over, the
containers that are open around it end behind it.

**Results.**
* `exists_items`, `exists_members`: lists and objects, for any reader of what is inside.
* `exists_of_skipFrom`: values that are passed over, by induction on the steps.
* `spelled_readValue`, `spelled_skipValue`: values that are kept, and that are passed over.
-/

namespace FlagStack

open Json

section Readers

variable {α β : Type}

/-- What the reader takes is a value, with blanks in front of it. -/
def Json.Reader.Spelled (reader : Reader α) : Prop :=
  ∀ s a rest, reader s = .ok (a, rest) →
    ∃ gap v, s = Blanks.text gap ++ (Spelling.text v ++ rest)

/-- The reader takes nothing. -/
def Json.Reader.Still (reader : Reader α) : Prop :=
  ∀ s a rest, reader s = .ok (a, rest) → rest = s

theorem still_pure
    (a : α) :
    Reader.Still (pure a) := by
  intro s b rest h
  cases h
  rfl

theorem still_throw
    (e : Error) :
    Reader.Still (throw e : Reader α) := by
  intro s b rest h
  cases h

theorem still_bind
    {reader : Reader α} {next : α → Reader β} (h : reader.Still) (hnext : ∀ a, (next a).Still) :
    Reader.Still (reader >>= next) := by
  intro s b rest hb
  obtain ⟨a, left, ha, hb⟩ := exists_of_bind_eq_ok hb
  rw [hnext a _ _ _ hb, h _ _ _ ha]

theorem spelled_bind
    {reader : Reader α} {next : α → Reader β} (h : reader.Spelled)
    (hnext : ∀ a, (next a).Still) :
    Reader.Spelled (reader >>= next) := by
  intro s b rest hb
  obtain ⟨a, left, ha, hb⟩ := exists_of_bind_eq_ok hb
  rw [hnext a _ _ _ hb]
  exact h _ _ _ ha

theorem spelled_map
    {reader : Reader α} (h : reader.Spelled) (f : α → β) :
    Reader.Spelled (f <$> reader) := by
  rw [← bind_pure_comp]
  exact spelled_bind h fun a => still_pure (f a)

end Readers

section Containers

variable {α σ : Type} {s rest : List Char}

/-- Blanks behind the bracket of a list belong to its first item, or to the list. -/
theorem exists_itemsText_of_gap
    (gap inner : Blanks) (items : List (Gaps × Spelling)) :
    ∃ inner' items', gap.text ++ itemsText inner true items = itemsText inner' true items' := by
  cases items with
  | nil => exact ⟨gap.append inner, [], by simp [itemsText, Blanks.append]⟩
  | cons x items =>
      obtain ⟨gaps, v⟩ := x
      exact ⟨inner, (⟨gap.append gaps.before, gaps.after⟩, v) :: items,
        by simp [itemsText, separator, Blanks.append]⟩

theorem exists_membersText_of_gap
    (gap inner : Blanks) (members : List (Label × Gaps × Spelling)) :
    ∃ inner' members',
      gap.text ++ membersText inner true members = membersText inner' true members' := by
  cases members with
  | nil => exact ⟨gap.append inner, [], by simp [membersText, Blanks.append]⟩
  | cons m members =>
      obtain ⟨label, gaps, v⟩ := m
      exact ⟨inner, (⟨gap.append label.before, label.key, label.after⟩, gaps, v) :: members,
        by simp [membersText, separator, Blanks.append]⟩

/-- The items that are left of a list, and its bracket. -/
theorem exists_items
    {item : Reader α} (hitem : item.Spelled) {bound : Nat} {acc as : List α}
    (h : Json.items item bound acc s = .ok (as, rest)) :
    ∃ gap inner items, s = Blanks.text gap ++ (itemsText inner acc.isEmpty items ++ rest) := by
  induction bound generalizing acc s with
  | zero => cases h
  | succ bound ih =>
      rw [Json.items] at h
      obtain ⟨more, left, hmore, hrest⟩ := exists_of_bind_eq_ok h
      cases more with
      | false =>
          obtain ⟨gap, rfl, -⟩ := exists_gap_of_nextItem hmore
          rw [if_neg Bool.false_ne_true] at hrest
          obtain ⟨_, left', hclose, hend⟩ := exists_of_bind_eq_ok hrest
          cases hend
          obtain ⟨inner, rfl⟩ := exists_gap_of_closeList hclose
          exact ⟨gap, inner, [], by simp [itemsText]⟩
      | true =>
          obtain ⟨gap, before, rfl⟩ := exists_gaps_of_nextItem hmore
          rw [if_pos rfl] at hrest
          obtain ⟨a, left', ha, hrest⟩ := exists_of_bind_eq_ok hrest
          obtain ⟨after, inner, items, rfl⟩ := ih hrest
          obtain ⟨gap', v, rfl⟩ := hitem _ _ _ ha
          exact ⟨gap, inner, (⟨before.append gap', after⟩, v) :: items,
            by simp [itemsText, Blanks.append]⟩

/-- The members that are left of an object, and its brace. -/
theorem exists_members
    {member : String → σ → Reader σ}
    (hmember : ∀ key state s next rest, member key state s = .ok (next, rest) →
      ∃ after gap v, s = Blanks.text after ++ ':' :: (Blanks.text gap ++ (Spelling.text v ++ rest)))
    {bound : Nat} {first : Bool} {state last : σ}
    (h : Json.members member bound first state s = .ok (last, rest)) :
    ∃ gap inner members, s = Blanks.text gap ++ (membersText inner first members ++ rest) := by
  induction bound generalizing first state s with
  | zero => cases h
  | succ bound ih =>
      rw [Json.members] at h
      obtain ⟨key?, left, hkey, hrest⟩ := exists_of_bind_eq_ok h
      cases key? with
      | none =>
          cases hrest
          obtain ⟨inner, rfl⟩ := exists_gap_of_nextKey hkey
          exact ⟨.empty, inner, [], by simp [membersText]⟩
      | some key =>
          obtain ⟨gap, before, content, rfl⟩ := exists_key_of_nextKey hkey
          obtain ⟨next, left', hnext, hrest⟩ := exists_of_bind_eq_ok hrest
          obtain ⟨behind, inner, members, rfl⟩ := ih hrest
          obtain ⟨after, gap', v, rfl⟩ := hmember _ _ _ _ _ hnext
          exact ⟨gap, inner, (⟨before, content, after⟩, ⟨gap', behind⟩, v) :: members,
            by simp [membersText]⟩

theorem exists_array
    (h : ∃ gap inner items, s = Blanks.text gap ++ (itemsText inner true items ++ rest)) :
    ∃ v : Spelling, '[' :: s = v.text ++ rest := by
  obtain ⟨gap, inner, items, rfl⟩ := h
  obtain ⟨inner', items', htext⟩ := exists_itemsText_of_gap gap inner items
  exact ⟨.array items' inner', by rw [← List.append_assoc, htext, Spelling.text]; rfl⟩

theorem exists_object
    (h : ∃ gap inner members, s = Blanks.text gap ++ (membersText inner true members ++ rest)) :
    ∃ v : Spelling, '\x7b' :: s = v.text ++ rest := by
  obtain ⟨gap, inner, members, rfl⟩ := h
  obtain ⟨inner', members', htext⟩ := exists_membersText_of_gap gap inner members
  exact ⟨.object members' inner', by rw [← List.append_assoc, htext, Spelling.text]; rfl⟩

end Containers

section Values

variable {α : Type}

theorem spelled_byBracket
    {list object scalar : Reader α}
    (hlist : ∀ s a rest, list s = .ok (a, rest) →
      ∃ gap inner items, s = Blanks.text gap ++ (itemsText inner true items ++ rest))
    (hobject : ∀ s a rest, object s = .ok (a, rest) →
      ∃ gap inner members, s = Blanks.text gap ++ (membersText inner true members ++ rest))
    (hscalar : ∀ s a rest, scalar s = .ok (a, rest) → ∃ v : Spelling, s = v.text ++ rest) :
    (byBracket list object scalar).Spelled := by
  intro s a rest h
  rw [byBracket] at h
  split at h
  · next hskip =>
      obtain ⟨gap, rfl⟩ := exists_gap_of_skipBlanks hskip
      obtain ⟨v, hv⟩ := exists_array (hlist _ _ _ h)
      exact ⟨gap, v, by rw [hv]⟩
  · next hskip =>
      obtain ⟨gap, rfl⟩ := exists_gap_of_skipBlanks hskip
      obtain ⟨v, hv⟩ := exists_object (hobject _ _ _ h)
      exact ⟨gap, v, by rw [hv]⟩
  · obtain ⟨gap, hgap⟩ := exists_gap s
    obtain ⟨v, hv⟩ := hscalar _ _ _ h
    exact ⟨gap, v, by rw [← hv, ← hgap]⟩

theorem spelled_readValue
    (bound room : Nat) :
    (readValue bound room).Spelled := by
  induction room with
  | zero =>
      rw [readValue]
      refine spelled_byBracket ?_ ?_ fun _ _ _ => exists_scalar_of_readScalar
      · intro s a rest h
        cases h
      · intro s a rest h
        cases h
  | succ room ih =>
      rw [readValue]
      refine spelled_byBracket ?_ ?_ fun _ _ _ => exists_scalar_of_readScalar
      · intro s a rest h
        rw [← bind_pure_comp] at h
        obtain ⟨as, left, hitems, h⟩ := exists_of_bind_eq_ok h
        cases h
        exact exists_items ih hitems
      · intro s a rest h
        rw [← bind_pure_comp] at h
        obtain ⟨l, left, hmembers, h⟩ := exists_of_bind_eq_ok h
        cases h
        refine exists_members ?_ hmembers
        intro key l s next rest h
        obtain ⟨_, left, hcolon, h⟩ := exists_of_bind_eq_ok h
        obtain ⟨a, left', ha, h⟩ := exists_of_bind_eq_ok h
        cases h
        obtain ⟨after, rfl⟩ := exists_gap_of_colon hcolon
        obtain ⟨gap, v, rfl⟩ := ih _ _ _ ha
        exact ⟨after, gap, v, rfl⟩

end Values

section Skipped

/-- Items or members of a container and its bracket, behind one that has been passed. -/
def Json.Container.Tail : Container → List Char → Prop
  | .list, s => ∃ inner items, s = itemsText inner false items
  | .object, s => ∃ inner members, s = membersText inner false members

/-- Behind a value inside of open containers the rest of these containers stands in front
of what is left. -/
def Ended : List Container → List Char → List Char → Prop
  | [], s, rest => s = rest
  | c :: outer, s, rest =>
      ∃ gap tail next, s = Blanks.text gap ++ (tail ++ next) ∧ c.Tail tail ∧ Ended outer next rest

/-- Where containers are open, a value stands here and they end behind it. -/
def Pending (outer : List Container) (s rest : List Char) : Prop :=
  if outer.isEmpty then s = rest
  else ∃ gap v next, s = Blanks.text gap ++ (Spelling.text v ++ next) ∧ Ended outer next rest

variable {s t rest : List Char}

theorem exists_label_of_skipLabel
    (h : Container.skipLabel .object s = .ok t) :
    ∃ label : Label, s = label.before.text ++ '"' :: (contentText label.key ++ '"' ::
      (label.after.text ++ ':' :: t)) := by
  rw [Container.skipLabel] at h
  split at h
  · cases h
  · next hskip =>
      obtain ⟨left, hstring, h⟩ := bind_eq_ok_iff.1 h
      obtain ⟨⟨_, left'⟩, hcolon, h⟩ := bind_eq_ok_iff.1 h
      cases h
      obtain ⟨before, rfl⟩ := exists_gap_of_skipBlanks hskip
      obtain ⟨content, rfl⟩ := exists_content_of_skipString hstring
      obtain ⟨after, rfl⟩ := exists_gap_of_colon hcolon
      exact ⟨⟨before, content, after⟩, rfl⟩
  · cases h

/-- Behind a comma another value follows in the same container. -/
theorem tail_of_comma
    {c : Container} {gap after : Blanks} {v : Spelling} {tail next : List Char}
    (hlabel : c.skipLabel s = .ok (gap.text ++ (v.text ++ (after.text ++ (tail ++ next)))))
    (htail : c.Tail tail) :
    ∃ tail', c.Tail tail' ∧ ',' :: s = tail' ++ next := by
  cases c with
  | list =>
      obtain ⟨inner, items, rfl⟩ := htail
      cases hlabel
      exact ⟨_, ⟨inner, (⟨gap, after⟩, v) :: items, rfl⟩, by simp [itemsText, separator]⟩
  | object =>
      obtain ⟨inner, members, rfl⟩ := htail
      obtain ⟨label, rfl⟩ := exists_label_of_skipLabel hlabel
      exact ⟨_, ⟨inner, (label, ⟨gap, after⟩, v) :: members, rfl⟩,
        by simp [membersText, separator]⟩

theorem tail_closing
    (c : Container) :
    c.Tail [c.closing] := by
  cases c with
  | list => exact ⟨.empty, [], rfl⟩
  | object => exact ⟨.empty, [], rfl⟩

theorem ended_of_skipBetween
    {outer open' : List Container} (h : skipBetween outer s = .ok (open', t))
    (hpending : Pending open' t rest) :
    Ended outer s rest := by
  induction outer generalizing s with
  | nil =>
      cases h
      exact hpending
  | cons c outer ih =>
      rw [skipBetween] at h
      split at h
      · cases h
      · next d tail hskip =>
          obtain ⟨gap, rfl⟩ := exists_gap_of_skipBlanks hskip
          split at h
          · next hd =>
              obtain ⟨left, hlabel, h⟩ := bind_eq_ok_iff.1 h
              cases h
              obtain ⟨gap', v, next, rfl, after, tail', next', rfl, htail, hended⟩ := hpending
              obtain ⟨tail'', htail'', heq⟩ := tail_of_comma hlabel htail
              exact ⟨gap, tail'', next', by rw [hd, heq], htail'', hended⟩
          · split at h
            · next hd =>
                exact ⟨gap, [c.closing], tail, by rw [hd]; rfl, tail_closing c, ih h⟩
            · cases h

/-- An empty container. -/
theorem exists_empty
    {c : Container} {opening : Char} (hopening : Container.opening? opening = some c)
    (inner : Blanks) (rest : List Char) :
    ∃ v : Spelling, opening :: (inner.text ++ c.closing :: rest) = v.text ++ rest := by
  rw [Container.opening?] at hopening
  split at hopening
  · next h =>
      cases hopening
      exact ⟨.array [] inner, by simp [h, Spelling.text, itemsText, Container.closing]⟩
  · split at hopening
    · next h =>
        cases hopening
        exact ⟨.object [] inner, by simp [h, Spelling.text, membersText, Container.closing]⟩
    · cases hopening

/-- A container with a first value and others behind it. -/
theorem exists_container
    {c : Container} {opening : Char} (hopening : Container.opening? opening = some c)
    (before : Blanks) {gap after : Blanks} {v : Spelling} {tail next : List Char}
    (hlabel : c.skipLabel s = .ok (gap.text ++ (v.text ++ (after.text ++ (tail ++ next)))))
    (htail : c.Tail tail) :
    ∃ v' : Spelling, opening :: (before.text ++ s) = v'.text ++ next := by
  rw [Container.opening?] at hopening
  split at hopening
  · next h =>
      cases hopening
      obtain ⟨inner, items, rfl⟩ := htail
      cases hlabel
      exact ⟨.array ((⟨before.append gap, after⟩, v) :: items) inner,
        by simp [h, Spelling.text, itemsText, separator, Blanks.append]⟩
  · split at hopening
    · next h =>
        cases hopening
        obtain ⟨inner, members, rfl⟩ := htail
        obtain ⟨label, rfl⟩ := exists_label_of_skipLabel hlabel
        exact ⟨.object
            ((⟨before.append label.before, label.key, label.after⟩, ⟨gap, after⟩, v) :: members)
            inner,
          by simp [h, Spelling.text, membersText, separator, Blanks.append]⟩
    · cases hopening

theorem exists_of_skipStep
    {outer open' : List Container} (h : skipStep outer s = .ok (open', t))
    (hpending : Pending open' t rest) :
    ∃ gap v next, s = Blanks.text gap ++ (Spelling.text v ++ next) ∧ Ended outer next rest := by
  obtain ⟨gap, hgap⟩ := exists_gap s
  rw [skipStep] at h
  generalize skipBlanks s = s' at h hgap
  subst hgap
  cases hhead : s'.head?.bind Container.opening? with
  | none =>
      simp only [hhead] at h
      obtain ⟨left, hscalar, hbetween⟩ := bind_eq_ok_iff.1 h
      obtain ⟨v, rfl⟩ := exists_scalar_of_skipScalar hscalar
      exact ⟨gap, v, left, rfl, ended_of_skipBetween hbetween hpending⟩
  | some c =>
      simp only [hhead] at h
      obtain ⟨opening, hopening, hc⟩ := Option.bind_eq_some_iff.1 hhead
      obtain ⟨inside, rfl⟩ := List.head?_eq_some_iff.1 hopening
      split at h
      · cases h
      · next d tail hskip =>
          obtain ⟨before, hbefore⟩ := exists_gap_of_skipBlanks hskip
          rw [List.tail_cons] at hbefore
          split at h
          · next hd =>
              obtain ⟨v, hv⟩ := exists_empty hc before tail
              exact ⟨gap, v, tail, by rw [hbefore, hd, hv], ended_of_skipBetween h hpending⟩
          · obtain ⟨left, hlabel, h⟩ := bind_eq_ok_iff.1 h
            cases h
            obtain ⟨gap', v, next, rfl, after, tail', next', rfl, htail, hended⟩ := hpending
            obtain ⟨v', hv'⟩ := exists_container hc before hlabel htail
            exact ⟨gap, v', next', by rw [hbefore, hv'], hended⟩

/-- A value that is passed over inside of open containers, with what ends them. -/
theorem exists_of_skipFrom
    {bound : Nat} {outer : List Container} (h : skipFrom bound outer s = .ok rest) :
    ∃ gap v next, s = Blanks.text gap ++ (Spelling.text v ++ next) ∧ Ended outer next rest := by
  induction bound generalizing outer s with
  | zero => cases h
  | succ bound ih =>
      rw [skipFrom] at h
      obtain ⟨⟨open', t⟩, hstep, hrest⟩ := bind_eq_ok_iff.1 h
      change (if open'.isEmpty then Except.ok t else skipFrom bound open' t) = _ at hrest
      refine exists_of_skipStep hstep ?_
      rw [Pending]
      split at hrest
      · next hempty =>
          cases hrest
          rw [if_pos hempty]
      · next hempty =>
          rw [if_neg hempty]
          exact ih hrest

theorem spelled_skipValue
    (bound : Nat) :
    (skipValue bound).Spelled := by
  intro s a rest h
  obtain ⟨left, hskip, h⟩ := bind_eq_ok_iff.1 h
  cases h
  obtain ⟨gap, v, next, rfl, rfl⟩ := exists_of_skipFrom hskip
  exact ⟨gap, v, rfl⟩

end Skipped

end FlagStack
