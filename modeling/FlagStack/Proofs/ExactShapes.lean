import FlagStack.Proofs.Meanings
import FlagStack.Proofs.ShapeRoundTrip

/-!
# Shapes read what is meant

The reader of a shape is exact: of the text of a spelling it gives the value that the
shape sees in the spelling, and it fails where the shape sees none.

**Results.**
* `Shape.exact_read`: the reader of a shape gives the meaning.
* `Shape.decode_document`: the same for whole texts.
-/

namespace FlagStack

open Json

section Alternatives

variable {α β γ : Type} {v : Spelling} {result : Option α}

theorem Spelling.isNull_iff
    {v : Spelling} :
    v.isNull ↔ v = .literal .null := by
  constructor
  · intro h
    cases v with
    | literal l => cases l with
      | null => rfl
      | bool b => cases h
    | _ => cases h
  · rintro rfl
    rfl

theorem Spelling.head_ne_of_not_isNull
    {v : Spelling} (h : ¬ v.isNull) :
    ∃ c s, v.text = c :: s ∧ c ≠ 'n' := by
  obtain ⟨c, s, htext, hhead⟩ := v.exists_head
  exact ⟨c, s, htext, fun hc => h (Spelling.isNull_iff.2 (hhead.null hc))⟩

theorem exact_readOption
    {reader : Reader α} (h : reader.Exact v result) :
    (Shape.readOption reader).Exact v (if v.isNull then some none else result.map some) := by
  intro gap rest hrest
  rw [Shape.readOption, skipBlanks_gap]
  by_cases hnull : v.isNull
  · rw [if_pos hnull]
    obtain rfl := Spelling.isNull_iff.1 hnull
    rfl
  · obtain ⟨c, s, htext, hn⟩ := Spelling.head_ne_of_not_isNull hnull
    have hread := h.text hrest
    rw [if_neg hnull]
    rw [htext, List.cons_append] at hread ⊢
    split
    · next heq =>
        cases heq
        exact absurd rfl hn
    · rw [toOption_bind, hread]
      cases result <;> rfl

theorem exact_readUnit
    (v : Spelling) :
    Shape.readUnit.Exact v (if v.isNull then some () else none) := by
  intro gap rest _
  rw [Shape.readUnit, skipBlanks_gap]
  by_cases hnull : v.isNull
  · rw [if_pos hnull]
    obtain rfl := Spelling.isNull_iff.1 hnull
    rfl
  · obtain ⟨c, s, htext, hn⟩ := Spelling.head_ne_of_not_isNull hnull
    rw [if_neg hnull, htext, List.cons_append]
    split
    · rfl
    · next heq =>
        cases heq
        exact absurd rfl hn
    · rfl

/-- An object of one alternative is closed behind its first member. -/
theorem toOption_closeAlternative
    (gap inner : Blanks) (members : List (Label × Gaps × Spelling)) (rest : List Char) :
    (Shape.closeAlternative (gap.text ++ (membersText inner false members ++ rest))).toOption =
      if members.isEmpty then some ((), rest) else none := by
  cases members with
  | nil =>
      simp only [membersText, List.append_assoc, List.singleton_append]
      rw [Shape.closeAlternative, skipBlanks_append, skipBlanks_gap_cons inner rfl]
      rfl
  | cons m members =>
      simp only [membersText, separator, Bool.false_eq_true, if_false, List.cons_append]
      rw [Shape.closeAlternative, skipBlanks_gap_cons gap rfl]
      rfl

theorem toOption_pick
    (names : List (String × γ)) (name : String) (s : List Char) :
    ((liftM (Shape.pick names name) : Reader γ) s).toOption = (names.lookup name).map (·, s) := by
  cases h : names.lookup name with
  | none =>
      have hpick : Shape.pick names name = .error (.unknownVariant name (names.map (·.1))) := by
        rw [Shape.pick, h]
      rw [hpick]
      rfl
  | some a =>
      rw [pick_of_lookup h]
      rfl

theorem toOption_alternative_nil
    (names : List (String × γ)) (inner : Blanks) (rest : List Char) :
    (Shape.alternative names (membersText inner true [] ++ rest)).toOption = none := by
  have hkey : (Shape.soleKey (membersText inner true [] ++ rest)).toOption = none := by
    simp only [membersText, List.append_assoc, List.singleton_append]
    rw [Shape.soleKey, skipBlanks_gap_cons inner rfl]
    rfl
  rw [Shape.alternative, toOption_reader_bind, hkey]
  rfl

theorem toOption_alternative_cons
    (names : List (String × γ)) (inner : Blanks) (label : Label) (gaps : Gaps) (v : Spelling)
    (members : List (Label × Gaps × Spelling)) (rest : List Char) :
    (Shape.alternative names
        (membersText inner true ((label, gaps, v) :: members) ++ rest)).toOption =
      ((content? label.key).bind fun key => names.lookup key).map
        (·, gaps.before.text ++
          (v.text ++ (gaps.after.text ++ (membersText inner false members ++ rest)))) := by
  have hread := readString_contentText label.key
    (behindKey label gaps v (membersText inner false members ++ rest))
  have hkey : (Shape.soleKey
      (membersText inner true ((label, gaps, v) :: members) ++ rest)).toOption =
      (content? label.key).map
        (·, behindKey label gaps v (membersText inner false members ++ rest)) := by
    rw [← hread, behindKey]
    simp only [membersText, separator, if_true, List.nil_append, List.append_assoc,
      List.cons_append]
    rw [Shape.soleKey, skipBlanks_gap_cons label.before rfl]
    rfl
  rw [Shape.alternative, toOption_reader_bind, hkey]
  cases content? label.key with
  | none => rfl
  | some key =>
      simp only [Option.map_some, Option.bind_some]
      rw [toOption_reader_bind, toOption_pick, behindKey]
      cases names.lookup key with
      | none => rfl
      | some a =>
          simp only [Option.map_some, Option.bind_some]
          rw [bind_of_ok (colon_gap _ _)]
          rfl

theorem keyed_bind_sole
    (names : List (String × γ)) (f : γ → Spelling → Option β) (label : Label) (gaps : Gaps)
    (v : Spelling) (members : List (Label × Gaps × Spelling)) :
    (keyed ((label, gaps, v) :: members)).bind (sole names f) =
      ((content? label.key).bind fun key => names.lookup key).bind fun a =>
        if members.isEmpty then f a v else none := by
  cases members with
  | nil =>
      rw [keyed_cons]
      cases content? label.key <;> rfl
  | cons m members =>
      obtain ⟨label', gaps', v'⟩ := m
      rw [keyed_cons, keyed_cons]
      cases content? label.key with
      | none => rfl
      | some key =>
          cases content? label'.key <;> cases keyed members <;> simp [sole]

/-- An object with exactly one member, whose key tells how its value is read. -/
theorem toOption_tagged
    (names : List (String × γ)) (inside : γ → Reader β) (f : γ → Spelling → Option β)
    {members : List (Label × Gaps × Spelling)}
    (h : ∀ a, ∀ m ∈ members, (inside a).Exact m.2.2 (f a m.2.2)) (inner : Blanks)
    (rest : List Char) :
    ((do
        let b ← inside (← Shape.alternative names)
        Shape.closeAlternative
        return b : Reader β) (membersText inner true members ++ rest)).toOption =
      ((keyed members).bind (sole names f)).map (·, rest) := by
  cases members with
  | nil =>
      rw [toOption_reader_bind, toOption_alternative_nil]
      rfl
  | cons m members =>
      obtain ⟨label, gaps, v⟩ := m
      rw [toOption_reader_bind, toOption_alternative_cons, keyed_bind_sole]
      cases (content? label.key).bind fun key => names.lookup key with
      | none => rfl
      | some a =>
          have hinside := h a _ List.mem_cons_self gaps.before _
            (endsNumber_gap gaps.after (endsNumber_membersText inner members rest))
          simp only [Option.map_some, Option.bind_some]
          rw [toOption_reader_bind, hinside]
          cases f a v with
          | none => simp
          | some b =>
              simp only [Option.map_some, Option.bind_some]
              rw [toOption_reader_bind, toOption_closeAlternative]
              cases members.isEmpty <;> rfl

/-- An object with exactly one of two keys. -/
theorem toOption_either
    {left : Reader α} {right : Reader β} {f : Spelling → Option α} {g : Spelling → Option β}
    {members : List (Label × Gaps × Spelling)} (leftName rightName : String)
    (hleft : ∀ m ∈ members, left.Exact m.2.2 (f m.2.2))
    (hright : ∀ m ∈ members, right.Exact m.2.2 (g m.2.2)) (inner : Blanks) (rest : List Char) :
    ((do
        let c ←
          if ← Shape.alternative [(leftName, true), (rightName, false)] then .inl <$> left
          else .inr <$> right
        Shape.closeAlternative
        return c : Reader (α ⊕ β)) (membersText inner true members ++ rest)).toOption =
      ((keyed members).bind <| sole [(leftName, true), (rightName, false)] fun isLeft v =>
        if isLeft then (f v).map .inl else (g v).map .inr).map (·, rest) := by
  have hinside : ∀ isLeft, ∀ m ∈ members,
      Reader.Exact (if isLeft = true then Sum.inl <$> left else Sum.inr <$> right) m.2.2
        (if isLeft = true then (f m.2.2).map Sum.inl else (g m.2.2).map Sum.inr) := by
    intro isLeft m hm
    cases isLeft with
    | true => exact (hleft m hm).map Sum.inl
    | false => exact (hright m hm).map Sum.inr
  have htagged := toOption_tagged [(leftName, true), (rightName, false)] _
    (fun isLeft v => if isLeft = true then (f v).map Sum.inl else (g v).map Sum.inr) hinside
    inner rest
  rw [← htagged, toOption_reader_bind, toOption_reader_bind]
  congr 1
  funext x
  cases x.1 <;> rfl

variable {bare tagged : Reader α} {rest : List Char}

/-- A string is one of the bare alternatives, an object one of the others. -/
theorem exact_readAlternative
    (hbare : ∀ content, v = .string content → bare.Exact v result)
    (htagged : ∀ members inner, v = .object members inner → ∀ rest,
      (tagged (membersText inner true members ++ rest)).toOption = result.map (·, rest))
    (hother : v.string? = none → v.members? = none → result = none) :
    (Shape.readAlternative bare tagged).Exact v result := by
  intro gap rest hrest
  rw [Shape.readAlternative, skipBlanks_gap]
  cases v with
  | string content => exact (hbare content rfl).text hrest
  | object members inner => exact htagged members inner rfl rest
  | literal l =>
      rw [hother rfl rfl]
      rcases l with _ | _ | _ <;> rfl
  | array items inner =>
      rw [hother rfl rfl]
      rfl
  | number n =>
      obtain ⟨c, s, htext, hc⟩ := n.exists_head
      obtain ⟨-, -, hobject, -, -, -, hquote, -⟩ := head_number hc
      rw [hother rfl rfl, Spelling.text, htext]
      simp [hobject, hquote, Except.toOption]

/-- What is inside an object, behind the brace. -/
theorem toOption_nested_members
    {room : Nat} {inside : Nat → Reader α} {f : Nat → List (String × Spelling) → Option α}
    {members : List (Label × Gaps × Spelling)} {inner : Blanks}
    (h : ∀ r, room = r + 1 → (inside r (membersText inner true members ++ rest)).toOption =
      ((keyed members).bind (f r)).map (·, rest)) :
    (nested room inside (membersText inner true members ++ rest)).toOption =
      ((keyed members).bind fun ms => within room fun r => f r ms).map (·, rest) := by
  rw [toOption_nested h]
  cases room with
  | zero => cases keyed members <;> rfl
  | succ room => rfl

theorem exact_readChoice
    (names : List (String × α)) (room : Nat) (v : Spelling) :
    (Shape.readChoice names room).Exact v (v.choice? names room) := by
  refine exact_readAlternative ?_ ?_ ?_
  · rintro content rfl gap rest hrest
    rw [toOption_reader_bind, exact_readText _ _ gap rest hrest, Spelling.choice?]
    cases hname : (Spelling.string content).string? with
    | none => rfl
    | some name => exact toOption_pick names name rest
  · rintro members inner rfl rest
    refine toOption_nested_members fun r _ => ?_
    have hunit : ∀ a : α, ∀ m ∈ members,
        Reader.Exact (do Shape.readUnit; return a) m.2.2
          (if m.2.2.isNull then some a else none) := by
      intro a m _
      have hnull : (if m.2.2.isNull then some a else none) =
          (if m.2.2.isNull then some () else none).bind fun _ => some a := by
        cases m.2.2.isNull <;> rfl
      rw [hnull]
      exact (exact_readUnit m.2.2).bind fun _ _ => rfl
    have htagged := toOption_tagged names (fun a => do Shape.readUnit; return a)
      (fun a v => if v.isNull then some a else none) hunit inner rest
    simpa only [bind_assoc, pure_bind] using htagged
  · intro hstring hmembers
    rw [Spelling.choice?, hstring, hmembers]
    rfl

end Alternatives

section Containers

variable {α : Type} {room : Nat} {inside : Nat → Reader α} {v : Spelling}

theorem exact_readContainer_list
    {f : Nat → List Spelling → Option α} (expected : String)
    (h : ∀ items inner, v = .array items inner → ∀ r, room = r + 1 → ∀ rest,
      (inside r (itemsText inner true items ++ rest)).toOption =
        (f r (items.map Prod.snd)).map (·, rest)) :
    (Shape.readContainer '[' expected room inside).Exact v
      (v.items?.bind fun vs => within room fun r => f r vs) := by
  intro gap rest _
  rw [Shape.readContainer, skipBlanks_gap]
  by_cases hv : ∃ items inner, v = .array items inner
  · obtain ⟨items, inner, rfl⟩ := hv
    rw [Spelling.text, List.cons_append]
    simp only [if_true]
    exact toOption_nested fun r hr => h items inner rfl r hr rest
  · obtain ⟨c, s, htext, hhead⟩ := v.exists_head
    have hc : c ≠ '[' := fun hc => hv (hhead.bracket hc)
    have hitems : v.items? = none := by
      cases v with
      | array items inner => exact absurd ⟨items, inner, rfl⟩ hv
      | _ => rfl
    rw [hitems, htext, List.cons_append]
    simp only [if_neg hc]
    rfl

theorem exact_readContainer_object
    {f : Nat → List (String × Spelling) → Option α} (expected : String)
    (h : ∀ members inner, v = .object members inner → ∀ r, room = r + 1 → ∀ rest,
      (inside r (membersText inner true members ++ rest)).toOption =
        ((keyed members).bind (f r)).map (·, rest)) :
    (Shape.readContainer '\x7b' expected room inside).Exact v
      (v.members?.bind fun ms => within room fun r => f r ms) := by
  intro gap rest _
  rw [Shape.readContainer, skipBlanks_gap]
  by_cases hv : ∃ members inner, v = .object members inner
  · obtain ⟨members, inner, rfl⟩ := hv
    rw [Spelling.text, List.cons_append]
    simp only [if_true]
    exact toOption_nested_members fun r hr => h members inner rfl r hr rest
  · obtain ⟨c, s, htext, hhead⟩ := v.exists_head
    have hc : c ≠ '\x7b' := fun hc => hv (hhead.brace hc)
    have hmembers : v.members? = none := by
      cases v with
      | object members inner => exact absurd ⟨members, inner, rfl⟩ hv
      | _ => rfl
    rw [hmembers, htext, List.cons_append]
    simp only [if_neg hc]
    rfl

end Containers

/-- What is read is accepted or refused. -/
theorem toOption_accepted
    {α β : Type} (accept : α → Except String β) (a : α) (s : List Char) :
    ((match accept a with
      | .ok b => return b
      | .error reason => throw (.refused reason) : Reader β) s).toOption =
      (accept a).toOption.map (·, s) := by
  cases accept a <;> rfl

namespace Fields

theorem toOption_collect
    (s : List Char) :
    {σ τ : Type} → (fields : Fields σ τ) → (slots : τ) →
      (fields.collect slots s).toOption = (fields.gather slots).map (·, s)
  | _, _, .nil, _ => rfl
  | _, _, @Fields.cons α _ _ field _ rest, (slot, slots) => by
      have hrest : ∀ a : Option α,
          (a.bind fun a => ((do return (a, ← rest.collect slots) : Reader _) s).toOption) =
            (do
              let a ← a
              let values ← rest.gather slots
              return (a, values)).map (·, s) := by
        intro a
        cases a with
        | none => rfl
        | some a =>
            simp only [Option.bind_some]
            rw [toOption_reader_bind, toOption_collect s rest slots]
            cases rest.gather slots <;> rfl
      cases slot with
      | some a => exact hrest (some a)
      | none =>
          obtain ⟨name, aliases, absence, description⟩ := field
          cases absence with
          | refused => rfl
          | omitted a => exact hrest (some a)
          | defaulted a => exact hrest (some a)

end Fields

/-- The members of a record's object, its fields gathered from the slots at the end. -/
theorem Fields.toOption_members_collect
    {σ τ β : Type} (fields : Fields σ τ) {room bound : Nat}
    {members : List (Label × Gaps × Spelling)}
    (hmember : ∀ m ∈ members, ∀ key slots rest, EndsNumber rest →
      (fields.readMember bound room key slots
          (m.1.after.text ++ ':' :: (m.2.1.before.text ++ (m.2.2.text ++ rest)))).toOption =
        (fields.take room slots (key, m.2.2)).map (·, rest))
    (hbound : members.length < bound) (inner : Blanks) (build : σ → β) (rest : List Char) :
    ((do
        let slots ← Json.members (fields.readMember bound room) bound true fields.unfilled
        return build (← fields.collect slots) : Reader β)
      (membersText inner true members ++ rest)).toOption =
      ((keyed members).bind fun ms => (fields.meaning room ms).map build).map (·, rest) := by
  have hread := toOption_members (fun slots m => fields.take room slots m) hmember inner hbound true
    fields.unfilled .empty rest
  rw [toOption_reader_bind]
  refine (congrArg (Option.bind · _) hread).trans ?_
  cases keyed members with
  | none => rfl
  | some ms =>
      have hslots := fields.foldlM_take room ms
      simp only [Option.bind_some]
      rw [← hslots]
      cases ms.foldlM (fields.take room) fields.unfilled with
      | none => rfl
      | some slots =>
          simp only [Option.map_some, Option.bind_some]
          rw [toOption_reader_bind, fields.toOption_collect]
          cases fields.gather slots <;> rfl

theorem toOption_readEntry
    (key : String) (t : Table String) (m : Label × Gaps × Spelling) {rest : List Char}
    (hrest : EndsNumber rest) :
    (Shape.readEntry key t
        (m.1.after.text ++ ':' :: (m.2.1.before.text ++ (m.2.2.text ++ rest)))).toOption =
      (m.2.2.string?.map (t.put key)).map (·, rest) := by
  have hread := exact_readText "a string" m.2.2 m.2.1.before rest hrest
  rw [Shape.readEntry, bind_of_ok (colon_gap _ _), toOption_reader_bind, hread]
  cases m.2.2.string? <;> rfl

theorem closeList_of_head_ne
    {s t : List Char} {c : Char} (hs : skipBlanks s = c :: t) (hc : c ≠ ']') :
    (closeList s).toOption = none := by
  rw [closeList, hs]
  split
  · rfl
  · next heq =>
      cases heq
      exact absurd rfl hc
  · split <;> rfl
  · rfl

/-- A list is closed where no item is left. -/
theorem toOption_closeList
    (first : Bool) (gap inner : Blanks) (items : List (Gaps × Spelling)) (rest : List Char) :
    (closeList (gap.text ++ (itemsText inner first items ++ rest))).toOption =
      if items.isEmpty then some ((), rest) else none := by
  cases items with
  | nil =>
      simp only [itemsText, List.append_assoc, List.singleton_append]
      rw [closeList, skipBlanks_append, skipBlanks_gap_cons inner rfl]
      rfl
  | cons x items =>
      obtain ⟨gaps, v⟩ := x
      cases first with
      | true =>
          obtain ⟨c, s, htext, hhead⟩ := v.exists_head
          simp only [itemsText, separator, if_true, List.nil_append, List.append_assoc]
          have hskip := skipBlanks_gap gaps.before v
            (gaps.after.text ++ (itemsText inner false items ++ rest))
          rw [htext, List.cons_append] at hskip
          rw [htext, ← skipBlanks_append gap] at *
          exact closeList_of_head_ne hskip hhead.close
      | false =>
          simp only [itemsText, separator, Bool.false_eq_true, if_false, List.cons_append,
            List.nil_append, List.append_assoc]
          exact closeList_of_head_ne (skipBlanks_gap_cons gap rfl _) (by decide)

mutual

/-- The reader of a shape gives what the shape sees in a spelling. -/
theorem Shape.exact_read
    (bound : Nat) :
    {α : Type} → (shape : Shape α) → (room : Nat) → (v : Spelling) → v.text.length ≤ bound →
      (shape.read bound room).Exact v (shape.meaning room v)
  | _, .text expected _ accept _, room, v, _ => by
      rw [Shape.read, Shape.meaning]
      exact (exact_readText expected v).bind fun s rest => toOption_accepted accept s rest
  | _, .count, _, v, _ => by
      rw [Shape.read, Shape.meaning]
      exact exact_readCount v
  | _, .anything, room, v, hbound => by
      rw [Shape.read, Shape.meaning]
      exact exact_readValue room v hbound
  | _, .choice names _, room, v, _ => by
      rw [Shape.read, Shape.meaning]
      exact exact_readChoice names room v
  | _, .option shape, room, v, hbound => by
      rw [Shape.read, Shape.meaning]
      exact exact_readOption (shape.exact_read bound room v hbound)
  | _, .list shape, room, v, hbound => by
      rw [Shape.read, Shape.meaning]
      refine exact_readContainer_list "a sequence" ?_
      rintro items inner rfl r - rest
      obtain ⟨hlength, hitems⟩ := length_itemsText inner items
      rw [Spelling.text, List.length_cons] at hbound
      have hread : ∀ x ∈ items, (shape.read bound r).Exact x.2 (shape.meaning r x.2) :=
        fun x hx => shape.exact_read bound r x.2 ((hitems x hx).trans (by omega))
      have hlist := toOption_items hread inner (show items.length < bound by omega) [] .empty
        rest
      exact hlist
  | _, .textTable, room, v, hbound => by
      rw [Shape.read, Shape.meaning]
      refine exact_readContainer_object "a map" ?_
      rintro members inner rfl r - rest
      have hlength := (length_membersText inner members).1
      rw [Spelling.text, List.length_cons] at hbound
      exact toOption_members (fun t m => m.2.string?.map (t.put m.1))
        (fun m _ key t rest hrest => toOption_readEntry key t m hrest) inner
        (show members.length < bound by omega) true Table.empty .empty rest
  | _, .either left leftShape right rightShape, room, v, hbound => by
      rw [Shape.read, Shape.meaning]
      refine exact_readAlternative ?_ ?_ ?_
      · rintro content rfl gap rest hrest
        rw [toOption_reader_bind, exact_readText _ _ gap rest hrest]
        cases (Spelling.string content).string? with
        | none => rfl
        | some name =>
            simp only [Option.map_some, Option.bind_some]
            rw [toOption_reader_bind, toOption_pick]
            cases [(left.name, true), (right.name, false)].lookup name <;> rfl
      · rintro members inner rfl rest
        obtain ⟨-, hmembers⟩ := length_membersText inner members
        rw [Spelling.text, List.length_cons] at hbound
        refine toOption_nested_members fun r _ => ?_
        have hlength : ∀ m ∈ members, m.2.2.text.length ≤ bound :=
          fun m hm => (hmembers m hm).trans (by omega)
        exact toOption_either left.name right.name
          (fun m hm => leftShape.exact_read bound r m.2.2 (hlength m hm))
          (fun m hm => rightShape.exact_read bound r m.2.2 (hlength m hm)) inner rest
      · intro _ hmembers
        rw [hmembers]
        rfl
  | _, .record name fields build _, room, v, hbound => by
      rw [Shape.read, Shape.meaning]
      intro gap rest hrest
      simp only [skipBlanks_gap]
      cases hv : v.isScalar with
      | true =>
          obtain ⟨c, s, htext, hlist, hobject⟩ := Spelling.head_ne_of_isScalar hv
          obtain ⟨hitems, hmembers⟩ := Spelling.not_container_of_isScalar hv
          rw [hitems, hmembers, htext, List.cons_append]
          split
          · next heq =>
              cases heq
              exact absurd rfl hlist
          · next heq =>
              cases heq
              exact absurd rfl hobject
          · rfl
          · rfl
      | false =>
          cases v with
          | array items inner =>
              obtain ⟨-, hitems⟩ := length_itemsText inner items
              rw [Spelling.text, List.length_cons] at hbound
              rw [Spelling.text, List.cons_append]
              refine toOption_nested fun r _ => ?_
              exact fields.toOption_readItems bound name fields.count r 0 items
                (fun x hx => (hitems x hx).trans (by omega)) .empty inner rest build
          | object members inner =>
              obtain ⟨hlength, hmembers⟩ := length_membersText inner members
              rw [Spelling.text, List.length_cons] at hbound
              rw [Spelling.text, List.cons_append]
              refine toOption_nested_members fun r _ => ?_
              exact fields.toOption_members_collect
                (fun m hm key slots rest hrest => fields.toOption_readMember bound r key slots
                  m.1 m.2.1 m.2.2 ((hmembers m hm).trans (by omega)) rest hrest)
                (show members.length < bound by omega) inner build rest
          | _ => cases hv
  | _, .checked shape accept _, room, v, hbound => by
      rw [Shape.read, Shape.meaning]
      exact (shape.exact_read bound room v hbound).bind fun a rest =>
        toOption_accepted accept a rest
  | _, .named _ _ shape, room, v, hbound => by
      rw [Shape.read, Shape.meaning]
      exact shape.exact_read bound room v hbound

/-- A member behind its key. -/
theorem Fields.toOption_readMember
    (bound : Nat) :
    {σ τ : Type} → (fields : Fields σ τ) → (room : Nat) → (key : String) → (slots : τ) →
      (label : Label) → (gaps : Gaps) → (v : Spelling) → v.text.length ≤ bound →
      (rest : List Char) → EndsNumber rest →
      (fields.readMember bound room key slots
        (label.after.text ++ ':' :: (gaps.before.text ++ (v.text ++ rest)))).toOption =
        (fields.take room slots (key, v)).map (·, rest)
  | _, _, .nil, room, key, slots, label, gaps, v, hbound, rest, hrest => by
      rw [Fields.readMember, bind_of_ok (colon_gap _ _),
        bind_of_ok (skipValue_text v hbound gaps.before hrest)]
      rfl
  | _, _, .cons field shape others, room, key, (slot, slots), label, gaps, v, hbound, rest,
      hrest => by
      rw [Fields.readMember, Fields.take]
      cases hanswers : field.answers key with
      | false =>
          have hothers := others.toOption_readMember bound room key slots label gaps v hbound rest
            hrest
          simp only [Bool.false_eq_true, if_false]
          rw [toOption_reader_bind, hothers]
          cases others.take room slots (key, v) <;> rfl
      | true =>
          simp only [if_true]
          cases slot with
          | some a => rfl
          | none =>
              have hread := shape.exact_read bound room v hbound gaps.before rest hrest
              simp only [Option.isSome_none, Bool.false_eq_true, if_false]
              rw [bind_of_ok (colon_gap _ _), toOption_reader_bind, hread]
              cases shape.meaning room v <;> rfl

/-- The items that are left of a record's array, with the bracket behind them. -/
theorem Fields.toOption_readItems
    (bound : Nat) (name : String) (total : Nat) :
    {σ τ : Type} → (fields : Fields σ τ) → (room index : Nat) →
      (items : List (Gaps × Spelling)) → (∀ x ∈ items, x.2.text.length ≤ bound) →
      (gap inner : Blanks) → (rest : List Char) → {β : Type} → (build : σ → β) →
      ((do
          let values ← fields.readItems bound room name total index
          closeList
          return build values : Reader β)
        (gap.text ++ (itemsText inner (index == 0) items ++ rest))).toOption =
        ((fields.meaningOfItems room (items.map Prod.snd)).map build).map (·, rest)
  | _, _, .nil, room, index, items, _, gap, inner, rest, _, build => by
      simp only [Fields.readItems, pure_bind]
      rw [toOption_reader_bind, toOption_closeList]
      cases items <;> rfl
  | _, _, .cons field shape others, room, index, [], hbound, gap, inner, rest, _, build => by
      simp only [Fields.readItems, bind_assoc, pure_bind]
      rw [bind_of_ok (nextItem_nil _ _ gap inner rest)]
      simp only [Bool.false_eq_true, if_false]
      have hothers := fun a => others.toOption_readItems bound name total room (index + 1) [] nofun
        .empty .empty rest fun values => build (a, values)
      obtain ⟨key, aliases, absence, description⟩ := field
      cases absence with
      | refused => rfl
      | omitted a => rfl
      | defaulted a =>
          simp only [bind_assoc, pure_bind, List.map_nil, Fields.meaningOfItems,
            Absence.default?]
          refine (hothers a).trans ?_
          rw [List.map_nil]
          cases others.meaningOfItems room [] <;> rfl
  | _, _, .cons field shape others, room, index, (gaps, v) :: items, hbound, gap, inner, rest,
      _, build => by
      obtain ⟨hv, hitems⟩ := List.forall_mem_cons.1 hbound
      simp only [Fields.readItems, bind_assoc, pure_bind]
      rw [bind_of_ok (nextItem_cons _ gap inner gaps v items rest)]
      simp only [if_true, bind_assoc, pure_bind]
      have hread := (shape.exact_read bound room v hv).text
        (endsNumber_gap gaps.after (endsNumber_itemsText inner items rest))
      have hothers := fun a => others.toOption_readItems bound name total room (index + 1) items
        hitems gaps.after inner rest fun values => build (a, values)
      rw [toOption_reader_bind, hread, List.map_cons, Fields.meaningOfItems]
      cases shape.meaning room v with
      | none => rfl
      | some a =>
          refine (hothers a).trans ?_
          cases others.meaningOfItems room (items.map Prod.snd) <;> rfl

end

/-- A text is decoded to what the shape sees in its value. -/
theorem Shape.decode_document
    {α : Type} (shape : Shape α) (lead : Blanks) (v : Spelling) (trail : Blanks) :
    (shape.decode (Spelling.document lead v trail)).toOption = shape.meaning greatestDepth v := by
  have hend : EndsNumber trail.text := by
    simpa using endsNumber_gap trail (s := []) nofun
  have hatEnd : atEnd trail.text = .ok ((), []) := by
    have hskip := skipBlanks_append trail []
    rw [List.append_nil] at hskip
    rw [atEnd, hskip]
    rfl
  have hlength : v.text.length ≤ (lead.text ++ (v.text ++ trail.text)).length + 1 := by
    simp only [List.length_append]
    omega
  have hread := shape.exact_read _ greatestDepth v hlength lead trail.text hend
  rw [Shape.decode, Spelling.document, readAll, String.toList_ofList, toOption_bind, hread]
  cases shape.meaning greatestDepth v with
  | none => rfl
  | some a =>
      simp only [Option.map_some, Option.bind_some]
      rw [hatEnd]
      rfl

end FlagStack
