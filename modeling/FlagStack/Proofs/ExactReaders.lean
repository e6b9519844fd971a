import FlagStack.Proofs.SkippedSpellings
import FlagStack.Shape.Reader

/-!
# Readers on spelled values

What a reader makes of the text of a value is said without the text: it is a function
of the spelling.  The blanks in front of the value, what stands behind it, and bounds
that are not less than the length of the text do not come into it.

**Results.**
* `Reader.Exact`: the reader gives a result that depends on the value alone.
* `toOption_items`, `toOption_members`: lists and objects, for any reader of what is
  inside.
-/

namespace FlagStack

open Json

section Outcomes

variable {α β : Type}

theorem toOption_bind
    {ε : Type} (x : Except ε α) (f : α → Except ε β) :
    (x >>= f).toOption = x.toOption.bind fun a => (f a).toOption := by
  cases x <;> rfl

theorem toOption_reader_bind
    (reader : Reader α) (next : α → Reader β) (s : List Char) :
    ((reader >>= next) s).toOption =
      (reader s).toOption.bind fun x => (next x.1 x.2).toOption :=
  toOption_bind (reader s) fun x => next x.1 x.2

/-- Of the text of a value the reader gives the result, wherever the text stands. -/
def Json.Reader.Exact (reader : Reader α) (v : Spelling) (result : Option α) : Prop :=
  ∀ gap rest, EndsNumber rest →
    (reader (Blanks.text gap ++ (v.text ++ rest))).toOption = result.map (·, rest)

variable {reader : Reader α} {v : Spelling} {result : Option α}

/-- What is read is looked at once more, without reading on. -/
theorem Json.Reader.Exact.bind
    (h : reader.Exact v result) {next : α → Reader β} {f : α → Option β}
    (hnext : ∀ a s, (next a s).toOption = (f a).map (·, s)) :
    Reader.Exact (reader >>= next) v (result.bind f) := by
  intro gap rest hrest
  rw [toOption_reader_bind, h gap rest hrest]
  cases result with
  | none => rfl
  | some a => exact hnext a rest

theorem toOption_reader_map
    (f : α → β) (reader : Reader α) (s : List Char) :
    ((f <$> reader) s).toOption = (reader s).toOption.map fun x => (f x.1, x.2) := by
  rw [← bind_pure_comp, toOption_reader_bind]
  cases (reader s).toOption <;> rfl

theorem Json.Reader.Exact.map
    (h : reader.Exact v result) (f : α → β) :
    Reader.Exact (f <$> reader) v (result.map f) := by
  intro gap rest hrest
  rw [toOption_reader_map, h gap rest hrest]
  cases result <;> rfl

end Outcomes

section Scalars

/-- The string that a value stands for. -/
def Spelling.string? : Spelling → Option String
  | .string content => content? content
  | _ => none

/-- The value of a literal, number or string that can be kept. -/
def Spelling.scalar? : Spelling → Option Json
  | .literal .null => some .null
  | .literal (.bool b) => some (.bool b)
  | .number n => n.numeral.value.toOption
  | .string content => (content? content).map .string
  | _ => none

def Spelling.count? : Spelling → Option UInt32
  | .number n =>
      match n.numeral.value with
      | .ok (.integer i) =>
          if 0 ≤ i ∧ i < twoPow 32 then some (UInt32.ofNat i.toNat) else none
      | _ => none
  | _ => none

def Spelling.isNull : Spelling → Bool
  | .literal .null => true
  | _ => false

theorem exact_readText
    (expected : String) (v : Spelling) :
    (Shape.readText expected).Exact v v.string? := by
  intro gap rest hrest
  rw [Shape.readText, skipBlanks_gap]
  obtain ⟨c, s, htext, hhead⟩ := v.exists_head
  cases v with
  | string content =>
      simp only [Spelling.text, List.cons_append, List.append_assoc, List.nil_append]
      exact readString_contentText content rest
  | _ =>
      have hquote : c ≠ '"' := fun hc => by
        obtain ⟨content, h⟩ := hhead.quote hc
        cases h
      rw [htext]
      simp [hquote, Except.toOption, Spelling.string?]

theorem readScalar_text
    (v : Spelling) {rest : List Char} (hrest : EndsNumber rest) :
    (readScalar (v.text ++ rest)).toOption = v.scalar?.map (·, rest) := by
  cases v with
  | literal l => rcases l with _ | _ | _ <;> rfl
  | number n =>
      obtain ⟨c, s, htext, hc⟩ := n.exists_head
      obtain ⟨-, -, -, hn, ht, hf, hquote, -⟩ := head_number hc
      have hscan := scan_text .endInValue n hrest
      rw [htext, List.cons_append] at hscan
      rw [Spelling.text, htext, List.cons_append, readScalar, if_neg hn, if_neg ht, if_neg hf,
        if_neg hquote, if_pos hc, hscan, ok_bind, toOption_bind, Spelling.scalar?]
      cases n.numeral.value <;> rfl
  | string content =>
      have hread := readString_contentText content rest
      simp only [Spelling.text, List.cons_append, List.append_assoc, List.nil_append]
      rw [readScalar, if_neg (by decide), if_neg (by decide), if_neg (by decide), if_pos rfl,
        toOption_bind, hread, Spelling.scalar?]
      cases content? content <;> rfl
  | array items inner => rfl
  | object members inner => rfl

theorem exact_readCount
    (v : Spelling) :
    Shape.readCount.Exact v v.count? := by
  intro gap rest hrest
  rw [Shape.readCount, skipBlanks_gap]
  obtain ⟨c, s, htext, hhead⟩ := v.exists_head
  cases v with
  | number n =>
      obtain ⟨c, s, htext, hc⟩ := n.exists_head
      have hscan := scan_text .endInValue n hrest
      rw [Spelling.text, htext, List.cons_append] at *
      simp only [List.head?_cons, Option.any_some, decide_eq_true_eq, hc, if_true]
      rw [hscan, ok_bind, Spelling.count?]
      cases hvalue : n.numeral.value with
      | error e => simp [Except.toOption]
      | ok w =>
          cases w with
          | integer i =>
              simp only [ok_bind]
              split
              · rfl
              · rfl
          | _ => simp [Except.toOption]
  | _ =>
      have hc : ¬ (c = '-' ∨ c.isDigit) := fun hc => by
        obtain ⟨n, h⟩ := hhead.number hc
        cases h
      rw [htext]
      simp [hc, Except.toOption, Spelling.count?]

end Scalars

section Containers

/-- The items of an array. -/
def Spelling.items? : Spelling → Option (List Spelling)
  | .array items _ => some (items.map Prod.snd)
  | _ => none

/-- Members by their keys, if all of the keys can be read. -/
def keyed (members : List (Label × Gaps × Spelling)) : Option (List (String × Spelling)) :=
  members.mapM fun m => (content? m.1.key).map (·, m.2.2)

theorem keyed_cons
    (label : Label) (gaps : Gaps) (v : Spelling) (members : List (Label × Gaps × Spelling)) :
    keyed ((label, gaps, v) :: members) =
      (content? label.key).bind fun key => (keyed members).map ((key, v) :: ·) := by
  rw [keyed, List.mapM_cons, ← keyed]
  cases content? label.key <;> cases keyed members <;> rfl

/-- The members of an object by their keys. -/
def Spelling.members? : Spelling → Option (List (String × Spelling))
  | .object members _ => keyed members
  | _ => none

/-- A container inside of which there is room for one less. -/
def within {α : Type} (room : Nat) (f : Nat → Option α) : Option α :=
  match room with
  | 0 => none
  | room + 1 => f room

variable {α σ : Type}

theorem toOption_nested
    {room : Nat} {inside : Nat → Reader α} {f : Nat → Option α} {s rest : List Char}
    (h : ∀ r, room = r + 1 → (inside r s).toOption = (f r).map (·, rest)) :
    (nested room inside s).toOption = (within room f).map (·, rest) := by
  cases room with
  | zero => rfl
  | succ room => exact h room rfl

theorem Json.Reader.Exact.text
    {reader : Reader α} {v : Spelling} {result : Option α} (h : reader.Exact v result)
    {rest : List Char} (hrest : EndsNumber rest) :
    (reader (v.text ++ rest)).toOption = result.map (·, rest) :=
  h .empty rest hrest

section Lists

theorem nextItem_nil
    (first other : Bool) (gap inner : Blanks) (rest : List Char) :
    nextItem first (gap.text ++ (itemsText inner other [] ++ rest)) = .ok (false, ']' :: rest) := by
  simp only [itemsText, List.append_assoc, List.singleton_append]
  rw [nextItem, skipBlanks_append, skipBlanks_gap_cons inner rfl]
  rfl

/-- The reader is put before the next item. -/
theorem nextItem_cons
    (first : Bool) (gap inner : Blanks) (gaps : Gaps) (v : Spelling)
    (items : List (Gaps × Spelling)) (rest : List Char) :
    nextItem first (gap.text ++ (itemsText inner first ((gaps, v) :: items) ++ rest)) =
      .ok (true, v.text ++ (gaps.after.text ++ (itemsText inner false items ++ rest))) := by
  obtain ⟨c, s, htext, hhead⟩ := v.exists_head
  cases first with
  | true =>
      simp only [itemsText, separator, if_true, List.nil_append, List.append_assoc]
      rw [nextItem, skipBlanks_append, skipBlanks_gap, htext]
      simp [hhead.close]
  | false =>
      simp only [itemsText, separator, Bool.false_eq_true, if_false, List.cons_append,
        List.nil_append, List.append_assoc]
      have hskip := skipBlanks_gap gaps.before v
        (gaps.after.text ++ (itemsText inner false items ++ rest))
      rw [nextItem, skipBlanks_gap_cons gap rfl]
      rw [htext, List.cons_append] at hskip ⊢
      simp [hskip, hhead.close]

/-- The items that are left of a list. -/
theorem toOption_items
    {item : Reader α} {f : Spelling → Option α} {items : List (Gaps × Spelling)}
    (h : ∀ x ∈ items, item.Exact x.2 (f x.2)) (inner : Blanks) {bound : Nat}
    (hbound : items.length < bound) (acc : List α) (gap : Blanks) (rest : List Char) :
    (Json.items item bound acc (gap.text ++ (itemsText inner acc.isEmpty items ++ rest))).toOption =
      ((items.map Prod.snd).mapM f).map fun as => (acc.reverse ++ as, rest) := by
  induction items generalizing bound acc gap with
  | nil =>
      obtain ⟨bound, rfl⟩ := Nat.exists_eq_add_one_of_ne_zero (Nat.ne_zero_of_lt hbound)
      have hclose : closeList (']' :: rest) = .ok ((), rest) := rfl
      rw [Json.items, bind_of_ok (nextItem_nil _ _ gap inner rest), if_neg Bool.false_ne_true,
        bind_of_ok hclose]
      change some (acc.reverse, rest) = _
      simp
  | cons x items ih =>
      obtain ⟨gaps, v⟩ := x
      obtain ⟨bound, rfl⟩ := Nat.exists_eq_add_one_of_ne_zero (Nat.ne_zero_of_lt hbound)
      have hitem : item.Exact v (f v) := h _ List.mem_cons_self
      have hnext := endsNumber_gap gaps.after (endsNumber_itemsText inner items rest)
      rw [Json.items, bind_of_ok (nextItem_cons _ gap inner gaps v items rest), if_pos rfl,
        toOption_reader_bind, hitem.text hnext]
      cases hv : f v with
      | none => simp [List.mapM_cons, hv]
      | some a =>
          have hrest := ih (fun x hx => h x (List.mem_cons_of_mem _ hx))
            (Nat.lt_of_succ_lt_succ hbound) (a :: acc) gaps.after
          refine hrest.trans ?_
          rw [List.map_cons, List.mapM_cons, hv]
          cases (items.map Prod.snd).mapM f <;> simp

end Lists

section Objects

theorem nextKey_nil
    (first other : Bool) (gap inner : Blanks) (rest : List Char) :
    nextKey first (gap.text ++ (membersText inner other [] ++ rest)) = .ok (none, rest) := by
  simp only [membersText, List.append_assoc, List.singleton_append]
  rw [nextKey, skipBlanks_append, skipBlanks_gap_cons inner rfl]
  rfl

/-- What stands behind the key of a member. -/
def behindKey (label : Label) (gaps : Gaps) (v : Spelling) (rest : List Char) : List Char :=
  label.after.text ++ ':' :: (gaps.before.text ++ (v.text ++ (gaps.after.text ++ rest)))

theorem nextKey_cons
    (first : Bool) (gap inner : Blanks) (label : Label) (gaps : Gaps) (v : Spelling)
    (members : List (Label × Gaps × Spelling)) (rest : List Char) :
    (nextKey first
        (gap.text ++ (membersText inner first ((label, gaps, v) :: members) ++ rest))).toOption =
      (content? label.key).map fun key =>
        (some key, behindKey label gaps v (membersText inner false members ++ rest)) := by
  have hread := readString_contentText label.key
    (behindKey label gaps v (membersText inner false members ++ rest))
  have hkey : (readString (contentText label.key ++ '"' ::
      behindKey label gaps v (membersText inner false members ++ rest)) >>= fun x =>
        return (some x.1, x.2)).toOption =
      (content? label.key).map fun key =>
        (some key, behindKey label gaps v (membersText inner false members ++ rest)) := by
    rw [toOption_bind, hread]
    cases content? label.key <;> rfl
  rw [behindKey] at hkey
  cases first with
  | true =>
      simp only [membersText, separator, if_true, List.nil_append, List.append_assoc,
        List.cons_append]
      rw [nextKey, skipBlanks_append, skipBlanks_gap_cons label.before rfl]
      exact hkey
  | false =>
      have hskip := skipBlanks_gap_cons label.before (c := '"') rfl (contentText label.key ++ '"' ::
        behindKey label gaps v (membersText inner false members ++ rest))
      rw [behindKey] at hskip
      simp only [membersText, separator, Bool.false_eq_true, if_false, List.cons_append,
        List.nil_append, List.append_assoc]
      rw [nextKey, skipBlanks_gap_cons gap rfl]
      simpa [hskip, behindKey] using hkey

/-- The members that are left of an object, each handed on with its key. -/
theorem toOption_members
    {member : String → σ → Reader σ} (step : σ → String × Spelling → Option σ)
    {members : List (Label × Gaps × Spelling)}
    (h : ∀ m ∈ members, ∀ key state rest, EndsNumber rest →
      (member key state
          (m.1.after.text ++ ':' :: (m.2.1.before.text ++ (m.2.2.text ++ rest)))).toOption =
        (step state (key, m.2.2)).map (·, rest))
    (inner : Blanks) {bound : Nat} (hbound : members.length < bound) (first : Bool) (state : σ)
    (gap : Blanks) (rest : List Char) :
    (Json.members member bound first state
        (gap.text ++ (membersText inner first members ++ rest))).toOption =
      ((keyed members).bind fun ms => ms.foldlM step state).map (·, rest) := by
  induction members generalizing bound first state gap with
  | nil =>
      obtain ⟨bound, rfl⟩ := Nat.exists_eq_add_one_of_ne_zero (Nat.ne_zero_of_lt hbound)
      rw [Json.members, bind_of_ok (nextKey_nil _ _ gap inner rest)]
      rfl
  | cons m members ih =>
      obtain ⟨label, gaps, v⟩ := m
      obtain ⟨bound, rfl⟩ := Nat.exists_eq_add_one_of_ne_zero (Nat.ne_zero_of_lt hbound)
      have hnext := endsNumber_gap gaps.after (endsNumber_membersText inner members rest)
      have hrest := fun state => ih (fun m hm => h m (List.mem_cons_of_mem _ hm))
        (Nat.lt_of_succ_lt_succ hbound) false state gaps.after
      rw [Json.members, toOption_reader_bind, nextKey_cons, keyed_cons]
      cases content? label.key with
      | none => rfl
      | some key =>
          have hmember := h _ List.mem_cons_self key state _ hnext
          simp only [Option.map_some, Option.bind_some]
          rw [toOption_reader_bind, behindKey, hmember]
          cases hstep : step state (key, v) with
          | none =>
              cases keyed members <;> simp [List.foldlM_cons, hstep]
          | some next =>
              simp only [Option.map_some, Option.bind_some]
              rw [hrest next]
              cases keyed members <;> simp [List.foldlM_cons, hstep]

end Objects

section Values

/-- Any value that can be kept, with room for so many containers. -/
def Spelling.value? : Nat → Spelling → Option Json
  | room + 1, .array items _ => ((items.map Prod.snd).mapM (value? room)).map .array
  | room + 1, .object members _ =>
      ((keyed members).bind fun ms =>
        ms.foldlM (fun l m => (value? room m.2).map (insertEntry m.1 · l)) []).map .object
  | _, v => v.scalar?

theorem byBracket_array
    (list object scalar : Reader α) (gap inner : Blanks) (items : List (Gaps × Spelling))
    (rest : List Char) :
    byBracket list object scalar (gap.text ++ ((Spelling.array items inner).text ++ rest)) =
      list (itemsText inner true items ++ rest) := by
  rw [byBracket, skipBlanks_gap, Spelling.text]
  rfl

theorem byBracket_object
    (list object scalar : Reader α) (gap inner : Blanks)
    (members : List (Label × Gaps × Spelling)) (rest : List Char) :
    byBracket list object scalar (gap.text ++ ((Spelling.object members inner).text ++ rest)) =
      object (membersText inner true members ++ rest) := by
  rw [byBracket, skipBlanks_gap, Spelling.text]
  rfl

theorem Spelling.head_ne_of_isScalar
    {v : Spelling} (hv : v.isScalar) :
    ∃ c s, v.text = c :: s ∧ c ≠ '[' ∧ c ≠ '\x7b' := by
  obtain ⟨c, s, htext, hhead⟩ := v.exists_head
  refine ⟨c, s, htext, fun hc => ?_, fun hc => ?_⟩
  · obtain ⟨items, inner, rfl⟩ := hhead.bracket hc
    cases hv
  · obtain ⟨members, inner, rfl⟩ := hhead.brace hc
    cases hv

theorem Spelling.not_container_of_isScalar
    {v : Spelling} (hv : v.isScalar) :
    v.items? = none ∧ v.members? = none := by
  cases v <;> first | exact ⟨rfl, rfl⟩ | cases hv

theorem byBracket_scalar
    (list object scalar : Reader α) (gap : Blanks) {v : Spelling} (hv : v.isScalar)
    (rest : List Char) :
    byBracket list object scalar (gap.text ++ (v.text ++ rest)) = scalar (v.text ++ rest) := by
  obtain ⟨c, s, htext, hlist, hobject⟩ := Spelling.head_ne_of_isScalar hv
  rw [byBracket, skipBlanks_gap, htext]
  simp [hlist, hobject]

theorem Spelling.value?_of_isScalar
    {v : Spelling} (hv : v.isScalar) (room : Nat) :
    v.value? room = v.scalar? := by
  cases room <;> cases v <;> first | rfl | cases hv

theorem readValue_scalar
    {v : Spelling} (hv : v.isScalar) (bound room : Nat) (gap : Blanks) {rest : List Char}
    (hrest : EndsNumber rest) :
    (readValue bound room (gap.text ++ (v.text ++ rest))).toOption =
      (v.value? room).map (·, rest) := by
  rw [Spelling.value?_of_isScalar hv, ← readScalar_text v hrest]
  cases room <;> rw [readValue, byBracket_scalar _ _ _ gap hv]

/-- A value that is kept, by induction on the room: every container that is opened
takes some of it. -/
theorem exact_readValue
    (room : Nat) (v : Spelling) {bound : Nat} (hbound : v.text.length ≤ bound) :
    (readValue bound room).Exact v (v.value? room) := by
  induction room generalizing v with
  | zero =>
      intro gap rest hrest
      cases v with
      | array items inner =>
          rw [readValue, byBracket_array]
          rfl
      | object members inner =>
          rw [readValue, byBracket_object]
          rfl
      | _ => exact readValue_scalar rfl bound 0 gap hrest
  | succ room ih =>
      intro gap rest hrest
      cases v with
      | array items inner =>
          obtain ⟨hlength, hitems⟩ := length_itemsText inner items
          rw [Spelling.text, List.length_cons] at hbound
          have hread := toOption_items (fun x hx => ih x.2 ((hitems x hx).trans (by omega))) inner
            (show items.length < bound by omega) [] .empty rest
          rw [readValue, byBracket_array, toOption_reader_map, Spelling.value?]
          refine (congrArg _ hread).trans ?_
          cases (items.map Prod.snd).mapM (Spelling.value? room) <;> rfl
      | object members inner =>
          obtain ⟨hlength, hmembers⟩ := length_membersText inner members
          rw [Spelling.text, List.length_cons] at hbound
          have hmember : ∀ m ∈ members, ∀ key l rest, EndsNumber rest →
              ((do colon; return insertEntry key (← readValue bound room) l : Reader _)
                (m.1.after.text ++ ':' :: (m.2.1.before.text ++ (m.2.2.text ++ rest)))).toOption =
              ((m.2.2.value? room).map (insertEntry key · l)).map (·, rest) := by
            intro m hm key l rest hrest
            have hvalue := ih m.2.2 ((hmembers m hm).trans (by omega)) m.2.1.before rest hrest
            rw [bind_of_ok (colon_gap _ _), toOption_reader_bind, hvalue]
            cases m.2.2.value? room <;> rfl
          have hread := toOption_members
            (fun l m => (m.2.value? room).map (insertEntry m.1 · l)) hmember inner
            (show members.length < bound by omega) true [] .empty rest
          rw [readValue, byBracket_object, toOption_reader_map, Spelling.value?]
          refine (congrArg _ hread).trans ?_
          rw [Option.map_map, Option.map_map]
          rfl
      | _ => exact readValue_scalar rfl bound (room + 1) gap hrest

end Values
end Containers

end FlagStack
