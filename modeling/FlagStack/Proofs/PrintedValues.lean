import FlagStack.Proofs.KeptValues
import FlagStack.Proofs.PrintedNumbers
import FlagStack.Proofs.PrintedStrings

/-!
# Values read back

A value that has been printed in the compact form is read as the same value, if the
value is one that can be kept and each of its floating point numbers is read back.

How the reader goes through a list or an object does not depend on what it makes of
the items and members, so this part is stated for any reader of these.

**Results.**
* `items_inside`, `members_inside`: lists and objects, for any reader of what is inside.
* `reads_readValue`: values.
-/

namespace FlagStack
namespace Json

section Floats

mutual

/-- The floating point numbers in a value. -/
def floats : Json → List Binary64
  | .float x => [x]
  | .array items => floatsOfItems items
  | .object members => floatsOfMembers members
  | _ => []

def floatsOfItems : List Json → List Binary64
  | [] => []
  | v :: rest => v.floats ++ floatsOfItems rest

def floatsOfMembers : List (String × Json) → List Binary64
  | [] => []
  | (_, v) :: rest => v.floats ++ floatsOfMembers rest

end

theorem floats_array
    (items : List Json) :
    (array items).floats = items.flatMap floats := by
  rw [floats]
  induction items with
  | nil => rfl
  | cons v rest ih => rw [floatsOfItems, ih, List.flatMap_cons]

theorem floats_object
    (members : List (String × Json)) :
    (object members).floats = members.flatMap fun m => m.2.floats := by
  rw [floats]
  induction members with
  | nil => rfl
  | cons m rest ih => rw [floatsOfMembers, ih, List.flatMap_cons]

/-- The floating point numbers in a value are read back, each from its own text. -/
def FloatsReadBack (v : Json) : Prop :=
  ∀ x ∈ v.floats, x.ReadsBack

instance (v : Json) : Decidable v.FloatsReadBack :=
  inferInstanceAs (Decidable (∀ x ∈ v.floats, x.ReadsBack))

theorem FloatsReadBack.item
    {items : List Json} (h : (array items).FloatsReadBack) {v : Json} (hv : v ∈ items) :
    v.FloatsReadBack := by
  intro x hx
  refine h x ?_
  rw [floats_array]
  exact List.mem_flatMap.2 ⟨v, hv, hx⟩

theorem FloatsReadBack.member
    {members : List (String × Json)} (h : (object members).FloatsReadBack)
    {m : String × Json} (hm : m ∈ members) :
    m.2.FloatsReadBack := by
  intro x hx
  refine h x ?_
  rw [floats_object]
  exact List.mem_flatMap.2 ⟨m, hm, hx⟩

end Floats

section Texts

/-- What stands behind the bracket of a list. -/
def listInside : List Json → List Char
  | [] => [']']
  | v :: rest => v.compactChars ++ compactItems rest

/-- What stands behind the brace of an object. -/
def objectInside : List (String × Json) → List Char
  | [] => ['\x7d']
  | (key, v) :: rest => writeString key ++ ':' :: v.compactChars ++ compactMembers rest

theorem compactChars_array
    (items : List Json) :
    (array items).compactChars = '[' :: listInside items := by
  cases items <;> simp [compactChars, listInside]

theorem compactChars_object
    (members : List (String × Json)) :
    (object members).compactChars = '\x7b' :: objectInside members := by
  cases members <;> simp [compactChars, objectInside]

theorem endsNumber_of_delimiter
    {c : Char} (h : c ∈ [',', ']', '\x7d']) (s : List Char) :
    EndsNumber (c :: s) := by
  intro d hd
  cases hd
  simp only [List.mem_cons, List.not_mem_nil, or_false] at h
  rcases h with rfl | rfl | rfl <;> decide

theorem endsNumber_compactItems
    (items : List Json) (rest : List Char) :
    EndsNumber (compactItems items ++ rest) := by
  cases items with
  | nil => exact endsNumber_of_delimiter (by simp) _
  | cons v items => exact endsNumber_of_delimiter (by simp) _

theorem endsNumber_compactMembers
    (members : List (String × Json)) (rest : List Char) :
    EndsNumber (compactMembers members ++ rest) := by
  cases members with
  | nil => exact endsNumber_of_delimiter (by simp) _
  | cons m members => exact endsNumber_of_delimiter (by simp) _

/-- A container has more characters than it has parts, and than each of its parts
has, if every part adds its own and one more. -/
theorem length_inside
    {α : Type} {inside : List α → List Char} (tail : List α → List Char)
    (text : α → List Char)
    (hnil : 0 < (tail []).length)
    (htail : ∀ a l, (text a).length + (tail l).length < (tail (a :: l)).length)
    (hinside : ∀ a l, (text a).length + (tail l).length ≤ (inside (a :: l)).length)
    (l : List α) :
    l.length ≤ (inside l).length ∧ ∀ a ∈ l, (text a).length ≤ (inside l).length := by
  have hrest : ∀ l, l.length < (tail l).length ∧
      ∀ a ∈ l, (text a).length ≤ (tail l).length := by
    intro l
    induction l with
    | nil => exact ⟨hnil, nofun⟩
    | cons a l ih =>
        have hle := htail a l
        refine ⟨by rw [List.length_cons]; omega, List.forall_mem_cons.2 ⟨by omega, fun b hb => ?_⟩⟩
        have hb := ih.2 b hb
        omega
  cases l with
  | nil => exact ⟨Nat.zero_le _, nofun⟩
  | cons a l =>
      have hle := hinside a l
      have hl := (hrest l).1
      refine ⟨by rw [List.length_cons]; omega, List.forall_mem_cons.2 ⟨by omega, fun b hb => ?_⟩⟩
      have hb := (hrest l).2 b hb
      omega

theorem length_listInside
    (items : List Json) :
    items.length ≤ (listInside items).length ∧
      ∀ v ∈ items, v.compactChars.length ≤ (listInside items).length := by
  refine length_inside compactItems _ ?_ ?_ ?_ items
  · simp [compactItems]
  · intro v items
    simp [compactItems]
  · intro v items
    simp [listInside]

theorem length_objectInside
    (members : List (String × Json)) :
    members.length ≤ (objectInside members).length ∧
      ∀ m ∈ members, m.2.compactChars.length ≤ (objectInside members).length := by
  refine length_inside compactMembers _ ?_ ?_ ?_ members
  · simp [compactMembers]
  · intro m members
    simp only [compactMembers, List.length_append, List.length_cons]
    omega
  · intro m members
    simp only [objectInside, List.length_append, List.length_cons]
    omega

/-- The first character of a value: no blank, no closing bracket, and the letter of
`null` for this value only. -/
theorem exists_head
    {v : Json} (h : v.FloatsReadBack) :
    ∃ c s, v.compactChars = c :: s ∧ isBlank c = false ∧ c ≠ ']' ∧ (c = 'n' → v = .null) := by
  cases v with
  | null => exact ⟨'n', _, rfl, rfl, by decide, fun _ => rfl⟩
  | bool b => cases b <;> exact ⟨_, _, rfl, rfl, by decide, fun h => absurd h (by decide)⟩
  | integer n =>
      obtain ⟨c, s, hn, hc⟩ := Numeral.exists_head_writeInteger n
      obtain ⟨hblank, -, -, hletter, -, -, -, hclose⟩ := head_number hc
      exact ⟨c, s, hn, hblank, hclose, fun h => absurd h hletter⟩
  | float x =>
      obtain ⟨-, c, s, hx, hc, -⟩ := scan_of_readsBack (h x (by simp [floats]))
      obtain ⟨hblank, -, -, hletter, -, -, -, hclose⟩ := head_number hc
      exact ⟨c, s, hx, hblank, hclose, fun h => absurd h hletter⟩
  | string s => exact ⟨'"', _, rfl, rfl, by decide, fun h => absurd h (by decide)⟩
  | array items =>
      exact ⟨'[', _, compactChars_array items, rfl, by decide, fun h => absurd h (by decide)⟩
  | object members =>
      exact ⟨'\x7b', _, compactChars_object members, rfl, by decide,
        fun h => absurd h (by decide)⟩

end Texts

section Readers

variable {α β σ : Type}

/-- The reader reads the text as the value, and stops behind it. -/
def Reader.Reads (reader : Reader α) (text : List Char) (a : α) : Prop :=
  ∀ rest, EndsNumber rest → reader (text ++ rest) = .ok (a, rest)

theorem map_of_ok
    {reader : Reader α} {f : α → β} {s rest : List Char} {a : α}
    (h : reader s = .ok (a, rest)) :
    (f <$> reader) s = .ok (f a, rest) := by
  rw [← bind_pure_comp, bind_of_ok h]
  rfl

theorem colon_cons
    (rest : List Char) :
    colon (':' :: rest) = .ok ((), rest) := by
  rfl

/-- The reader stands before an item. -/
theorem nextItem_first
    {c : Char} (hblank : isBlank c = false) (hclose : c ≠ ']') (s : List Char) :
    nextItem true (c :: s) = .ok (true, c :: s) := by
  simp [nextItem, skipBlanks_of_head hblank]

theorem nextItem_later
    {c : Char} (hblank : isBlank c = false) (hclose : c ≠ ']') (s : List Char) :
    nextItem false (',' :: c :: s) = .ok (true, c :: s) := by
  have hcomma : isBlank ',' = false := rfl
  simp [nextItem, skipBlanks_of_head hcomma, skipBlanks_of_head hblank, hclose]

section Lists

variable {item : Reader α} {write : α → Json} {as : List α}

/-- A list ends at its bracket. -/
theorem items_close
    {bound : Nat} {acc : List α} (rest : List Char) :
    items item (bound + 1) acc (']' :: rest) = .ok (acc.reverse, rest) := by
  have hnext : ∀ first, nextItem first (']' :: rest) = .ok (false, ']' :: rest) := fun _ => rfl
  have hclose : closeList (']' :: rest) = .ok ((), rest) := rfl
  rw [items, bind_of_ok (hnext _), if_neg Bool.false_ne_true, bind_of_ok hclose]
  rfl

/-- The items behind those that have been read. -/
theorem items_compactItems
    (hhead : ∀ a ∈ as, (write a).FloatsReadBack)
    (hitem : ∀ a ∈ as, item.Reads (write a).compactChars a)
    {bound : Nat} (hbound : as.length < bound) {acc : List α} (hacc : acc ≠ [])
    (rest : List Char) :
    items item bound acc (compactItems (as.map write) ++ rest) =
      .ok (acc.reverse ++ as, rest) := by
  induction as generalizing bound acc with
  | nil =>
      obtain ⟨bound, rfl⟩ := Nat.exists_eq_add_one_of_ne_zero (Nat.ne_zero_of_lt hbound)
      rw [List.append_nil]
      exact items_close rest
  | cons a as ih =>
      obtain ⟨bound, rfl⟩ := Nat.exists_eq_add_one_of_ne_zero (Nat.ne_zero_of_lt hbound)
      have hempty : acc.isEmpty = false := by simpa using hacc
      obtain ⟨c, s, hc, hblank, hclose, -⟩ := exists_head (hhead a (by simp))
      have hread := hitem a (by simp) (compactItems (as.map write) ++ rest)
        (endsNumber_compactItems _ rest)
      have hnext := nextItem_later hblank hclose (s ++ (compactItems (as.map write) ++ rest))
      rw [← List.cons_append, ← hc] at hnext
      have hrest := ih (fun b hb => hhead b (by simp [hb])) (fun b hb => hitem b (by simp [hb]))
        (Nat.lt_of_succ_lt_succ hbound) (List.cons_ne_nil a acc)
      rw [List.map_cons, compactItems, List.cons_append, List.cons_append, List.append_assoc,
        items, hempty, bind_of_ok hnext, if_pos rfl, bind_of_ok hread, hrest]
      simp

/-- A list, from behind its bracket. -/
theorem items_listInside
    (hhead : ∀ a ∈ as, (write a).FloatsReadBack)
    (hitem : ∀ a ∈ as, item.Reads (write a).compactChars a)
    {bound : Nat} (hbound : as.length < bound) (rest : List Char) :
    items item bound [] (listInside (as.map write) ++ rest) = .ok (as, rest) := by
  obtain ⟨bound, rfl⟩ := Nat.exists_eq_add_one_of_ne_zero (Nat.ne_zero_of_lt hbound)
  cases as with
  | nil => exact items_close rest
  | cons a as =>
      obtain ⟨c, s, hc, hblank, hclose, -⟩ := exists_head (hhead a (by simp))
      have hread := hitem a (by simp) (compactItems (as.map write) ++ rest)
        (endsNumber_compactItems _ rest)
      have hnext := nextItem_first hblank hclose (s ++ (compactItems (as.map write) ++ rest))
      rw [← List.cons_append, ← hc] at hnext
      have hrest := items_compactItems (fun b hb => hhead b (by simp [hb]))
        (fun b hb => hitem b (by simp [hb])) (Nat.lt_of_succ_lt_succ hbound)
        (List.cons_ne_nil a []) rest
      rw [List.map_cons, listInside, List.append_assoc, items, List.isEmpty_nil,
        bind_of_ok hnext, if_pos rfl, bind_of_ok hread, hrest]
      simp

end Lists

section Objects

variable {member : String → σ → Reader σ} {state next last : σ}
  {members : List (String × Json)}

/-- What becomes of a state when the members of an object are read one after the
other. -/
inductive Takes (member : String → σ → Reader σ) : List (String × Json) → σ → σ → Prop
  | nil {state : σ} : Takes member [] state state
  | cons {key : String} {v : Json} {rest : List (String × Json)} {state next last : σ}
      (head : (member key state).Reads (':' :: v.compactChars) next)
      (tail : Takes member rest next last) :
      Takes member ((key, v) :: rest) state last

theorem readString_writeString
    (s : String) (rest : List Char) :
    ∃ text, writeString s ++ rest = '"' :: text ∧ readString text = .ok (s, rest) := by
  refine ⟨s.toList.flatMap escapedChar ++ '"' :: rest, ?_, readString_flatMap s rest⟩
  simp [writeString]

theorem nextKey_close
    (first : Bool) (rest : List Char) :
    nextKey first ('\x7d' :: rest) = .ok (none, rest) := by
  rfl

theorem nextKey_first
    (key : String) (rest : List Char) :
    nextKey true (writeString key ++ rest) = .ok (some key, rest) := by
  obtain ⟨text, htext, hread⟩ := readString_writeString key rest
  have hquote : isBlank '"' = false := rfl
  rw [htext, nextKey, skipBlanks_of_head hquote]
  simp [hread]

theorem nextKey_later
    (key : String) (rest : List Char) :
    nextKey false (',' :: (writeString key ++ rest)) = .ok (some key, rest) := by
  obtain ⟨text, htext, hread⟩ := readString_writeString key rest
  have hquote : isBlank '"' = false := rfl
  have hcomma : isBlank ',' = false := rfl
  rw [htext, nextKey, skipBlanks_of_head hcomma]
  simp [skipBlanks_of_head hquote, hread]

/-- An object ends at its brace. -/
theorem members_close
    {bound : Nat} (first : Bool) (rest : List Char) :
    Json.members member (bound + 1) first state ('\x7d' :: rest) = .ok (state, rest) := by
  rw [Json.members, bind_of_ok (nextKey_close first rest)]
  rfl

/-- The members behind those that have been read. -/
theorem members_compactMembers
    (h : Takes member members state last) {bound : Nat} (hbound : members.length < bound)
    (rest : List Char) :
    Json.members member bound false state (compactMembers members ++ rest) = .ok (last, rest) := by
  induction h generalizing bound with
  | nil =>
      obtain ⟨bound, rfl⟩ := Nat.exists_eq_add_one_of_ne_zero (Nat.ne_zero_of_lt hbound)
      exact members_close false rest
  | @cons key v members state next last head tail ih =>
      obtain ⟨bound, rfl⟩ := Nat.exists_eq_add_one_of_ne_zero (Nat.ne_zero_of_lt hbound)
      have hmember := head (compactMembers members ++ rest) (endsNumber_compactMembers _ rest)
      rw [List.cons_append] at hmember
      simp only [compactMembers, List.cons_append, List.append_assoc]
      rw [Json.members, bind_of_ok (nextKey_later key _)]
      simp only
      rw [bind_of_ok hmember]
      exact ih (Nat.lt_of_succ_lt_succ hbound)

/-- An object, from behind its brace. -/
theorem members_objectInside
    (h : Takes member members state last) {bound : Nat} (hbound : members.length < bound)
    (rest : List Char) :
    Json.members member bound true state (objectInside members ++ rest) = .ok (last, rest) := by
  obtain ⟨bound, rfl⟩ := Nat.exists_eq_add_one_of_ne_zero (Nat.ne_zero_of_lt hbound)
  cases h with
  | nil => exact members_close true rest
  | @cons key v members _ next _ head tail =>
      have hmember := head (compactMembers members ++ rest) (endsNumber_compactMembers _ rest)
      rw [List.cons_append] at hmember
      simp only [objectInside, List.cons_append, List.append_assoc]
      rw [Json.members, bind_of_ok (nextKey_first key _)]
      simp only
      rw [bind_of_ok hmember]
      exact members_compactMembers tail (Nat.lt_of_succ_lt_succ hbound) rest

end Objects

end Readers

section Values

/-- What is inserted behind all entries is put last. -/
theorem insertEntry_of_lt
    {α : Type} {l : List (String × α)} {key : String} (h : ∀ e ∈ l, e.1 < key) (value : α) :
    insertEntry key value l = l ++ [(key, value)] := by
  induction l with
  | nil => rfl
  | cons hd l ih =>
      obtain ⟨k, v⟩ := hd
      have hlt : k < key := h _ List.mem_cons_self
      have hne : key ≠ k := fun heq => String.lt_irrefl _ (heq ▸ hlt)
      rw [insertEntry, if_neg (String.lt_asymm hlt), if_neg hne,
        ih fun e he => h e (List.mem_cons_of_mem _ he)]
      rfl

/-- Increasing members are inserted one behind the other. -/
theorem takes_insertEntry
    {item : Reader Json} {before members : List (String × Json)}
    (hitem : ∀ m ∈ members, item.Reads m.2.compactChars m.2)
    (hincreasing : (before ++ members).Pairwise (·.1 < ·.1)) :
    Takes (fun key l => do colon; return insertEntry key (← item) l) members before
      (before ++ members) := by
  induction members generalizing before with
  | nil =>
      rw [List.append_nil]
      exact .nil
  | cons m members ih =>
      obtain ⟨key, v⟩ := m
      have hlast : ∀ e ∈ before, e.1 < key := fun e he =>
        (List.pairwise_append.1 hincreasing).2.2 e he _ List.mem_cons_self
      have hbehind : ((before ++ [(key, v)]) ++ members).Pairwise (·.1 < ·.1) := by
        simpa using hincreasing
      have hrest := ih (fun m hm => hitem m (List.mem_cons_of_mem _ hm)) hbehind
      rw [List.append_assoc, List.singleton_append] at hrest
      refine .cons ?_ hrest
      intro rest hends
      have hread := hitem (key, v) List.mem_cons_self rest hends
      rw [List.cons_append, bind_of_ok (colon_cons _), bind_of_ok hread,
        insertEntry_of_lt hlast]
      rfl

theorem byBracket_list
    {α : Type} (list object scalar : Reader α) (s : List Char) :
    byBracket list object scalar ('[' :: s) = list s := by
  rfl

theorem byBracket_object
    {α : Type} (list object scalar : Reader α) (s : List Char) :
    byBracket list object scalar ('\x7b' :: s) = object s := by
  rfl

/-- A number is read by its numeral. -/
theorem readValue_of_scan
    {s rest : List Char} {n : Numeral} {v : Json}
    (hhead : ∃ c t, s = c :: t ∧ (c = '-' ∨ c.isDigit))
    (hscan : Numeral.scan .endInValue s = .ok (n, rest)) (hvalue : n.value = .ok v)
    (bound room : Nat) :
    readValue bound room s = .ok (v, rest) := by
  obtain ⟨c, t, rfl, hc⟩ := hhead
  obtain ⟨hblank, hlist, hobject, hn, ht, hf, hquote, -⟩ := head_number hc
  rw [readValue_of_head hblank hlist hobject, readScalar, if_neg hn, if_neg ht, if_neg hf,
    if_neg hquote, if_pos hc, hscan, ok_bind]
  simp only [hvalue]
  rfl

/-- A value is read back from its text. -/
theorem reads_readValue
    {room : Nat} {v : Json} (h : v.Kept room) (hfloats : v.FloatsReadBack) {bound : Nat}
    (hbound : v.compactChars.length ≤ bound) :
    (readValue bound room).Reads v.compactChars v := by
  induction h with
  | @null room =>
      intro rest _
      exact readValue_of_head rfl (by decide) (by decide) bound room _
  | @bool room b =>
      intro rest _
      cases b <;> exact readValue_of_head rfl (by decide) (by decide) bound room _
  | @number room v h =>
      intro rest hends
      cases h with
      | @integer n least greatest =>
          obtain ⟨c, s, hn, hc⟩ := Numeral.exists_head_writeInteger n
          have hscan := (Numeral.isLocal_scan _ _ _
            (Numeral.scan_writeInteger .endInValue n)).2 rest hends
          exact readValue_of_scan ⟨c, s ++ rest, by simp [hn], hc⟩ hscan
            (Numeral.value_writeInteger least greatest) bound room
      | @float x finite =>
          obtain ⟨n, c, s, hx, hc, hscan, hvalue⟩ :=
            scan_of_readsBack (hfloats x (by simp [floats]))
          have hscan := (Numeral.isLocal_scan _ _ _ hscan).2 rest hends
          exact readValue_of_scan ⟨c, s ++ rest, by simp [hx], hc⟩ hscan hvalue bound room
  | @string room s =>
      intro rest _
      obtain ⟨text, htext, hread⟩ := readString_writeString s rest
      rw [compactChars, htext, readValue_of_head rfl (by decide) (by decide)]
      change (readString text >>= fun x => .ok (Json.string x.1, x.2)) = _
      rw [hread]
      rfl
  | @array room items h ih =>
      intro rest _
      obtain ⟨hlength, hitems⟩ := length_listInside items
      rw [compactChars_array, List.length_cons] at hbound
      have hitem : ∀ v ∈ items, (readValue bound room).Reads v.compactChars v :=
        fun v hv => ih v hv (hfloats.item hv) ((hitems v hv).trans (by omega))
      have hcount : items.length < bound := by omega
      have hread := items_listInside (fun v hv => hfloats.item hv) hitem hcount rest
      rw [List.map_id'] at hread
      rw [compactChars_array, List.cons_append, readValue, byBracket_list]
      exact map_of_ok hread
  | @object room members hincreasing h ih =>
      intro rest _
      obtain ⟨hlength, hmembers⟩ := length_objectInside members
      rw [compactChars_object, List.length_cons] at hbound
      have hitem : ∀ m ∈ members, (readValue bound room).Reads m.2.compactChars m.2 :=
        fun m hm => ih m hm (hfloats.member hm) ((hmembers m hm).trans (by omega))
      have hcount : members.length < bound := by omega
      have htakes := takes_insertEntry hitem ((List.nil_append members).symm ▸ hincreasing)
      have hread := members_objectInside htakes hcount rest
      rw [compactChars_object, List.cons_append, readValue, byBracket_object]
      exact map_of_ok hread

end Values

end Json
end FlagStack
