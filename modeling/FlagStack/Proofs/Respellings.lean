import FlagStack.Config
import FlagStack.Proofs.ExactShapes
import Mathlib.Logic.Relation

/-!
# Spellings of the same value

Changes of a spelling that do not change what it means to a shape.  In an object that is
read as a record, members can change places, members that no field answers to can come in,
a member can go by another name of its field, and a field that is left out can be given as
what it stands for when it is left out.  In an array that is read as a record, empty
collections can be left out at the end.  All of this can be done at any depth.

**Results.**
* `Fields.Edited.meaning`: what is done to the members of one object.
* `Shape.Respelled.meaning`: what is done anywhere in a value.
-/

namespace FlagStack

open Json

section Fields

/-- The first field that answers to a key. -/
def Fields.find? : {σ τ : Type} → Fields σ τ → String → Option ((α : Type) × Field α × Shape α)
  | _, _, .nil, _ => none
  | _, _, .cons field shape rest, key =>
      if field.answers key then some ⟨_, field, shape⟩ else rest.find? key

/-- The field at a place. -/
def Fields.at? : {σ τ : Type} → Fields σ τ → Nat → Option ((α : Type) × Field α × Shape α)
  | _, _, .nil, _ => none
  | _, _, .cons field shape _, 0 => some ⟨_, field, shape⟩
  | _, _, .cons _ _ rest, i + 1 => rest.at? i

/-- An empty collection, in the place of a field that stands for one when it is not given. -/
inductive Field.Empty : {α : Type} → Field α → Shape α → Spelling → Prop
  | list {α : Type} {field : Field (List α)} (shape : Shape α) (inner : Blanks)
      (h : field.absence = .defaulted []) : Empty field (.list shape) (.array [] inner)
  | textTable {field : Field (Table String)} (inner : Blanks)
      (h : field.absence = .defaulted Table.empty) : Empty field .textTable (.object [] inner)

/-- What an object may give for a field that it can as well leave out. -/
inductive Field.Idle : {α : Type} → Field α → Shape α → Spelling → Prop
  | null {α : Type} {field : Field (Option α)} (shape : Shape α)
      (h : field.absence = .omitted none) : Idle field (.option shape) (.literal .null)
  | empty {α : Type} {field : Field α} {shape : Shape α} {v : Spelling}
      (h : field.Empty shape v) : Idle field shape v

/-- A key and its value, without the blanks around them. -/
def core (m : Label × Gaps × Spelling) : List Piece × Spelling :=
  (m.1.key, m.2.2)

/-- A change of the members of an object that is read as a record. -/
inductive Fields.Edited {σ τ : Type} (fields : Fields σ τ) :
    List (Label × Gaps × Spelling) → List (Label × Gaps × Spelling) → Prop
  /-- The members are put in another order. -/
  | reordered {members members' : List (Label × Gaps × Spelling)}
      (h : (members.map core).Perm (members'.map core)) : fields.Edited members members'
  /-- A member comes in that no field answers to. -/
  | inserted (before after : List (Label × Gaps × Spelling)) (label : Label) (gaps : Gaps)
      (v : Spelling) {key : String} (hkey : content? label.key = some key)
      (hfield : fields.find? key = none) :
      fields.Edited (before ++ after) (before ++ (label, gaps, v) :: after)
  /-- A field is given under another of its names. -/
  | renamed (before after : List (Label × Gaps × Spelling)) (label label' : Label) (gaps : Gaps)
      (v : Spelling) {key key' : String} (hkey : content? label.key = some key)
      (hkey' : content? label'.key = some key') {α : Type} {field : Field α} {shape : Shape α}
      (hfield : fields.find? key = some ⟨α, field, shape⟩)
      (hfield' : fields.find? key' = some ⟨α, field, shape⟩) :
      fields.Edited (before ++ (label, gaps, v) :: after) (before ++ (label', gaps, v) :: after)
  /-- A field that is left out is given. -/
  | given (before after : List (Label × Gaps × Spelling)) (label : Label) (gaps : Gaps)
      (v : Spelling) {key : String} (hkey : content? label.key = some key) {α : Type}
      {field : Field α} {shape : Shape α} (hfield : fields.find? key = some ⟨α, field, shape⟩)
      (hmissing : ∀ m ∈ before ++ after, ∀ other ∈ content? m.1.key,
        field.answers other = false)
      (hidle : field.Idle shape v) :
      fields.Edited (before ++ after) (before ++ (label, gaps, v) :: after)

end Fields

/-- A change of a value that leaves what a shape sees in it: of the members of an object
or of the end of an array, and then of all that such a value is part of. -/
inductive Shape.Respelled : {α : Type} → Shape α → Spelling → Spelling → Prop
  | members {σ τ α : Type} {name : String} {fields : Fields σ τ} {build : σ → α} {parts : α → σ}
      {members members' : List (Label × Gaps × Spelling)} (inner : Blanks)
      (h : fields.Edited members members') :
      Respelled (.record name fields build parts) (.object members inner) (.object members' inner)
  | member {σ τ α β : Type} {name : String} {fields : Fields σ τ} {build : σ → α} {parts : α → σ}
      (before after : List (Label × Gaps × Spelling)) (label : Label) (gaps : Gaps)
      (inner : Blanks) {v v' : Spelling} {key : String} (hkey : content? label.key = some key)
      {field : Field β} {shape : Shape β} (hfield : fields.find? key = some ⟨β, field, shape⟩)
      (h : shape.Respelled v v') :
      Respelled (.record name fields build parts)
        (.object (before ++ (label, gaps, v) :: after) inner)
        (.object (before ++ (label, gaps, v') :: after) inner)
  /-- An empty collection is given at the end of an array. -/
  | trailing {σ τ α β : Type} {name : String} {fields : Fields σ τ} {build : σ → α} {parts : α → σ}
      (items : List (Gaps × Spelling)) (gaps : Gaps) (inner : Blanks) {v : Spelling}
      {field : Field β} {shape : Shape β}
      (hfield : fields.at? items.length = some ⟨β, field, shape⟩) (hempty : field.Empty shape v) :
      Respelled (.record name fields build parts)
        (.array items inner) (.array (items ++ [(gaps, v)]) inner)
  | element {σ τ α β : Type} {name : String} {fields : Fields σ τ} {build : σ → α} {parts : α → σ}
      (before after : List (Gaps × Spelling)) (gaps : Gaps) (inner : Blanks) {v v' : Spelling}
      {field : Field β} {shape : Shape β}
      (hfield : fields.at? before.length = some ⟨β, field, shape⟩) (h : shape.Respelled v v') :
      Respelled (.record name fields build parts)
        (.array (before ++ (gaps, v) :: after) inner)
        (.array (before ++ (gaps, v') :: after) inner)
  | item {α : Type} {shape : Shape α} (before after : List (Gaps × Spelling)) (gaps : Gaps)
      (inner : Blanks) {v v' : Spelling} (h : shape.Respelled v v') :
      Respelled (.list shape)
        (.array (before ++ (gaps, v) :: after) inner)
        (.array (before ++ (gaps, v') :: after) inner)
  | option {α : Type} {shape : Shape α} {v v' : Spelling} (h : shape.Respelled v v') :
      Respelled (.option shape) v v'
  | left {α β : Type} {left : Field α} {leftShape : Shape α} {right : Field β}
      {rightShape : Shape β} (label : Label) (gaps : Gaps) (inner : Blanks) {v v' : Spelling}
      (hkey : content? label.key = some left.name) (h : leftShape.Respelled v v') :
      Respelled (.either left leftShape right rightShape)
        (.object [(label, gaps, v)] inner) (.object [(label, gaps, v')] inner)
  | right {α β : Type} {left : Field α} {leftShape : Shape α} {right : Field β}
      {rightShape : Shape β} (label : Label) (gaps : Gaps) (inner : Blanks) {v v' : Spelling}
      (hkey : content? label.key = some right.name) (hname : right.name ≠ left.name)
      (h : rightShape.Respelled v v') :
      Respelled (.either left leftShape right rightShape)
        (.object [(label, gaps, v)] inner) (.object [(label, gaps, v')] inner)
  | checked {α β : Type} {shape : Shape α} {accept : α → Except String β} {forget : β → α}
      {v v' : Spelling} (h : shape.Respelled v v') :
      Respelled (.checked shape accept forget) v v'
  | named {α : Type} {name : String} {description : Option String} {shape : Shape α}
      {v v' : Spelling} (h : shape.Respelled v v') :
      Respelled (.named name description shape) v v'

section Members

theorem mapM_bind_of_perm
    {α β γ : Type} {f : α → Option β} {g : List β → Option γ}
    (hg : ∀ {as as'}, as.Perm as' → g as = g as') {l l' : List α} (h : l.Perm l') :
    (l.mapM f).bind g = (l'.mapM f).bind g := by
  induction h generalizing g with
  | nil => rfl
  | cons a _ ih =>
      rw [List.mapM_cons, List.mapM_cons]
      cases f a with
      | none => rfl
      | some b =>
          have hcons := ih (g := fun bs => g (b :: bs)) fun hbs => hg (hbs.cons b)
          simpa [Option.bind_assoc] using hcons
  | swap a a' l =>
      have hswap : ∀ b b' bs, g (b :: b' :: bs) = g (b' :: b :: bs) :=
        fun b b' bs => hg (List.Perm.swap b' b bs)
      simp only [List.mapM_cons]
      cases f a <;> cases f a' <;> cases l.mapM f <;> simp [hswap]
  | trans _ _ ih ih' => exact (ih hg).trans (ih' hg)

theorem keyed_eq_mapM
    (members : List (Label × Gaps × Spelling)) :
    keyed members = (members.map core).mapM fun e => (content? e.1).map (·, e.2) := by
  induction members with
  | nil => rfl
  | cons m members ih =>
      rw [List.map_cons, List.mapM_cons, ← ih, keyed, List.mapM_cons, ← keyed]
      rfl

theorem keyed_bind_of_perm
    {γ : Type} {g : List (String × Spelling) → Option γ}
    (hg : ∀ {ms ms'}, ms.Perm ms' → g ms = g ms')
    {members members' : List (Label × Gaps × Spelling)}
    (h : (members.map core).Perm (members'.map core)) :
    (keyed members).bind g = (keyed members').bind g := by
  rw [keyed_eq_mapM, keyed_eq_mapM]
  exact mapM_bind_of_perm hg h

/-- A member may as well come first. -/
theorem keyed_bind_middle
    {γ : Type} {g : List (String × Spelling) → Option γ}
    (hg : ∀ {ms ms'}, ms.Perm ms' → g ms = g ms')
    (before after : List (Label × Gaps × Spelling)) (label : Label) (gaps : Gaps) (v : Spelling) :
    (keyed (before ++ (label, gaps, v) :: after)).bind g =
      (content? label.key).bind fun key =>
        (keyed (before ++ after)).bind fun ms => g ((key, v) :: ms) := by
  have hperm : (before ++ (label, gaps, v) :: after).Perm ((label, gaps, v) :: (before ++ after)) :=
    List.perm_middle
  rw [keyed_bind_of_perm hg (hperm.map core), keyed_cons]
  cases content? label.key <;> cases keyed (before ++ after) <;> rfl

theorem exists_of_mem_keyed
    {members : List (Label × Gaps × Spelling)} {ms : List (String × Spelling)}
    (h : keyed members = some ms) {m : String × Spelling} (hm : m ∈ ms) :
    ∃ m' ∈ members, content? m'.1.key = some m.1 := by
  induction members generalizing ms with
  | nil =>
      cases h
      cases hm
  | cons m' members ih =>
      obtain ⟨label, gaps, v⟩ := m'
      rw [keyed_cons] at h
      cases hkey : content? label.key with
      | none => simp [hkey] at h
      | some key =>
          cases hrest : keyed members with
          | none => simp [hkey, hrest] at h
          | some rest =>
              rw [hkey, hrest] at h
              cases h
              rcases List.mem_cons.1 hm with rfl | hm
              · exact ⟨_, List.mem_cons_self, hkey⟩
              · obtain ⟨m', hm', hcontent⟩ := ih hrest hm
                exact ⟨m', List.mem_cons_of_mem _ hm', hcontent⟩

theorem only_of_perm
    {α : Type} (absent : Option α) (f : Spelling → Option α) {ms ms' : List (String × Spelling)}
    (h : ms.Perm ms') :
    only absent f ms = only absent f ms' := by
  match ms, ms' with
  | [], ms' => rw [h.nil_eq]
  | [m], ms' => rw [List.singleton_perm.1 h]
  | m :: m' :: ms, ms' =>
      have hlength := h.length_eq
      match ms' with
      | [] => cases hlength
      | [_] => simp at hlength
      | _ :: _ :: _ => rfl

end Members

namespace Fields

variable {room : Nat}

theorem meaning_of_perm :
    {σ τ : Type} → (fields : Fields σ τ) → {ms ms' : List (String × Spelling)} → ms.Perm ms' →
      fields.meaning room ms = fields.meaning room ms'
  | _, _, .nil, _, _, _ => rfl
  | _, _, .cons field shape rest, ms, ms', h => by
      rw [meaning, meaning, only_of_perm _ _ (h.filter _), meaning_of_perm rest (h.filter _)]

theorem meaning_cons_of_answers
    {σ τ α : Type} {field : Field α} (shape : Shape α) (rest : Fields σ τ)
    {m : String × Spelling} (h : field.answers m.1) (ms : List (String × Spelling)) :
    (Fields.cons field shape rest).meaning room (m :: ms) =
      (do
        let a ← only field.absence.value? (shape.meaning room)
          (m :: ms.filter fun m => field.answers m.1)
        let values ← rest.meaning room (ms.filter fun m => !field.answers m.1)
        return (a, values)) := by
  simp [meaning, h]

theorem meaning_cons_of_not_answers
    {σ τ α : Type} {field : Field α} (shape : Shape α) (rest : Fields σ τ)
    {m : String × Spelling} (h : ¬ field.answers m.1) (ms : List (String × Spelling)) :
    (Fields.cons field shape rest).meaning room (m :: ms) =
      (do
        let a ← only field.absence.value? (shape.meaning room)
          (ms.filter fun m => field.answers m.1)
        let values ← rest.meaning room (m :: ms.filter fun m => !field.answers m.1)
        return (a, values)) := by
  simp [meaning, h]

/-- A member that no field answers to is of no account. -/
theorem meaning_cons_of_find?_eq_none :
    {σ τ : Type} → (fields : Fields σ τ) → (m : String × Spelling) → fields.find? m.1 = none →
      (ms : List (String × Spelling)) →
      fields.meaning room (m :: ms) = fields.meaning room ms
  | _, _, .nil, _, _, _ => rfl
  | _, _, .cons field shape rest, m, h, ms => by
      rw [find?] at h
      split at h
      · cases h
      · next hanswers =>
          rw [meaning_cons_of_not_answers shape rest hanswers,
            meaning_cons_of_find?_eq_none rest m h, meaning]

theorem answers_of_find? :
    {σ τ α : Type} → (fields : Fields σ τ) → {key : String} → {field : Field α} →
      {shape : Shape α} → fields.find? key = some ⟨α, field, shape⟩ → field.answers key
  | _, _, _, .nil, _, _, _, h => nomatch h
  | _, _, _, .cons _ _ rest, key, field, shape, h => by
      rw [find?] at h
      split at h
      · next hanswers =>
          cases h
          exact hanswers
      · exact answers_of_find? rest h

/-- Of two members that the same field answers to one may stand for the other, if the
shape of the field sees the same in them. -/
theorem meaning_cons_congr :
    {σ τ α : Type} → (fields : Fields σ τ) → (m m' : String × Spelling) → {field : Field α} →
      {shape : Shape α} → fields.find? m.1 = some ⟨α, field, shape⟩ →
      fields.find? m'.1 = some ⟨α, field, shape⟩ →
      shape.meaning room m.2 = shape.meaning room m'.2 → (ms : List (String × Spelling)) →
      fields.meaning room (m :: ms) = fields.meaning room (m' :: ms)
  | _, _, _, .nil, _, _, _, _, h, _, _, _ => nomatch h
  | _, _, _, .cons first firstShape rest, m, m', field, shape, h, h', hvalue, ms => by
      rw [find?] at h h'
      split at h
      · next hanswers =>
          cases h
          have hanswers' : field.answers m'.1 := by
            split at h'
            · assumption
            · exact answers_of_find? rest h'
          rw [meaning_cons_of_answers shape rest hanswers,
            meaning_cons_of_answers shape rest hanswers']
          cases ms.filter fun m => field.answers m.1 with
          | nil => rw [only, only, hvalue]
          | cons m'' ms => rfl
      · next hanswers =>
          have hanswers' : ¬ first.answers m'.1 := by
            intro hanswers'
            rw [if_pos hanswers'] at h'
            cases h'
            exact hanswers (answers_of_find? rest h)
          rw [if_neg hanswers'] at h'
          rw [meaning_cons_of_not_answers firstShape rest hanswers,
            meaning_cons_of_not_answers firstShape rest hanswers',
            meaning_cons_congr rest m m' h h' hvalue]

/-- A field may be given as what it stands for when it is left out. -/
theorem meaning_cons_of_missing :
    {σ τ α : Type} → (fields : Fields σ τ) → {m : String × Spelling} → {field : Field α} →
      {shape : Shape α} → fields.find? m.1 = some ⟨α, field, shape⟩ →
      shape.meaning room m.2 = field.absence.value? → (ms : List (String × Spelling)) →
      (∀ m ∈ ms, field.answers m.1 = false) →
      fields.meaning room (m :: ms) = fields.meaning room ms
  | _, _, _, .nil, _, _, _, h, _, _, _ => nomatch h
  | _, _, _, .cons first firstShape rest, m, field, shape, h, hvalue, ms, hmissing => by
      rw [find?] at h
      split at h
      · next hanswers =>
          cases h
          have hnone : ms.filter (fun m => field.answers m.1) = [] :=
            List.filter_eq_nil_iff.2 fun m hm => by simp [hmissing m hm]
          rw [meaning_cons_of_answers shape rest hanswers, meaning, hnone, only, only, hvalue]
      · next hanswers =>
          have hothers : ∀ m ∈ ms.filter fun m => !first.answers m.1, field.answers m.1 = false :=
            fun m hm => hmissing m (List.mem_of_mem_filter hm)
          rw [meaning_cons_of_not_answers firstShape rest hanswers,
            meaning_cons_of_missing rest h hvalue _ hothers, meaning]

theorem meaningOfItems_congr :
    {σ τ α : Type} → (fields : Fields σ τ) → (before after : List Spelling) → {v v' : Spelling} →
      {field : Field α} → {shape : Shape α} →
      fields.at? before.length = some ⟨α, field, shape⟩ →
      shape.meaning room v = shape.meaning room v' →
      fields.meaningOfItems room (before ++ v :: after) =
        fields.meaningOfItems room (before ++ v' :: after)
  | _, _, _, .nil, _, _, _, _, _, _, h, _ => nomatch h
  | _, _, _, .cons first firstShape rest, [], after, v, v', field, shape, h, hvalue => by
      cases h
      rw [List.nil_append, List.nil_append, meaningOfItems, meaningOfItems, hvalue]
  | _, _, _, .cons first firstShape rest, _ :: before, after, v, v', field, shape, h, hvalue => by
      rw [List.cons_append, List.cons_append, meaningOfItems, meaningOfItems,
        meaningOfItems_congr rest before after h hvalue]

theorem meaningOfItems_append :
    {σ τ α : Type} → (fields : Fields σ τ) → (vs : List Spelling) → {v : Spelling} →
      {field : Field α} → {shape : Shape α} →
      fields.at? vs.length = some ⟨α, field, shape⟩ →
      shape.meaning room v = field.absence.default? →
      fields.meaningOfItems room (vs ++ [v]) = fields.meaningOfItems room vs
  | _, _, _, .nil, _, _, _, _, h, _ => nomatch h
  | _, _, _, .cons first firstShape rest, [], v, field, shape, h, hvalue => by
      cases h
      rw [List.nil_append, meaningOfItems, meaningOfItems, hvalue]
  | _, _, _, .cons first firstShape rest, _ :: vs, v, field, shape, h, hvalue => by
      rw [List.cons_append, meaningOfItems, meaningOfItems, meaningOfItems_append rest vs h hvalue]

theorem depth_of_find? :
    {σ τ α : Type} → (fields : Fields σ τ) → {key : String} → {field : Field α} →
      {shape : Shape α} → fields.find? key = some ⟨α, field, shape⟩ → shape.depth ≤ fields.depth
  | _, _, _, .nil, _, _, _, h => nomatch h
  | _, _, _, .cons first firstShape rest, key, field, shape, h => by
      rw [find?] at h
      rw [depth]
      split at h
      · cases h
        exact Nat.le_max_left _ _
      · exact (depth_of_find? rest h).trans (Nat.le_max_right _ _)

theorem depth_of_at? :
    {σ τ α : Type} → (fields : Fields σ τ) → {i : Nat} → {field : Field α} →
      {shape : Shape α} → fields.at? i = some ⟨α, field, shape⟩ → shape.depth ≤ fields.depth
  | _, _, _, .nil, _, _, _, h => nomatch h
  | _, _, _, .cons first firstShape rest, 0, field, shape, h => by
      cases h
      exact Nat.le_max_left _ _
  | _, _, _, .cons first firstShape rest, i + 1, field, shape, h =>
      (depth_of_at? rest h).trans (Nat.le_max_right _ _)

end Fields

section Changes

theorem Field.Empty.meaning
    {α : Type} {field : Field α} {shape : Shape α} {v : Spelling} (h : field.Empty shape v)
    {room : Nat} (hroom : shape.depth ≤ room) :
    shape.meaning room v = field.absence.value? ∧
      shape.meaning room v = field.absence.default? := by
  cases h with
  | list shape inner habsence =>
      obtain ⟨room, rfl⟩ := Nat.exists_eq_add_one_of_ne_zero (Nat.ne_zero_of_lt hroom)
      rw [habsence]
      exact ⟨rfl, rfl⟩
  | textTable inner habsence =>
      obtain ⟨room, rfl⟩ := Nat.exists_eq_add_one_of_ne_zero (Nat.ne_zero_of_lt hroom)
      rw [habsence]
      exact ⟨rfl, rfl⟩

theorem Field.Idle.meaning
    {α : Type} {field : Field α} {shape : Shape α} {v : Spelling} (h : field.Idle shape v)
    {room : Nat} (hroom : shape.depth ≤ room) :
    shape.meaning room v = field.absence.value? := by
  cases h with
  | null shape habsence =>
      rw [habsence]
      rfl
  | empty h => exact (h.meaning hroom).1

theorem Fields.keyed_bind_meaning_congr
    {σ τ α : Type} (fields : Fields σ τ) (before after : List (Label × Gaps × Spelling))
    {label label' : Label} {gaps : Gaps} {v v' : Spelling} {key key' : String}
    (hkey : content? label.key = some key) (hkey' : content? label'.key = some key')
    {field : Field α} {shape : Shape α} (hfield : fields.find? key = some ⟨α, field, shape⟩)
    (hfield' : fields.find? key' = some ⟨α, field, shape⟩) {room : Nat}
    (hvalue : shape.meaning room v = shape.meaning room v') :
    (keyed (before ++ (label, gaps, v) :: after)).bind (fields.meaning room) =
      (keyed (before ++ (label', gaps, v') :: after)).bind (fields.meaning room) := by
  rw [keyed_bind_middle fields.meaning_of_perm, keyed_bind_middle fields.meaning_of_perm, hkey,
    hkey', Option.bind_some, Option.bind_some]
  congr 1
  funext ms
  exact fields.meaning_cons_congr (key, v) (key', v') hfield hfield' hvalue ms

/-- The fields of a record see the same in the members before and after a change. -/
theorem Fields.Edited.meaning
    {σ τ : Type} {fields : Fields σ τ} {members members' : List (Label × Gaps × Spelling)}
    (h : fields.Edited members members') {room : Nat} (hroom : fields.depth ≤ room) :
    (keyed members).bind (fields.meaning room) = (keyed members').bind (fields.meaning room) := by
  cases h with
  | reordered h => exact keyed_bind_of_perm fields.meaning_of_perm h
  | inserted before after label gaps v hkey hfield =>
      rw [keyed_bind_middle fields.meaning_of_perm, hkey, Option.bind_some]
      congr 1
      funext ms
      exact (fields.meaning_cons_of_find?_eq_none _ hfield ms).symm
  | renamed before after label label' gaps v hkey hkey' hfield hfield' =>
      exact fields.keyed_bind_meaning_congr before after hkey hkey' hfield hfield' rfl
  | given before after label gaps v hkey hfield hmissing hidle =>
      rw [keyed_bind_middle fields.meaning_of_perm, hkey, Option.bind_some]
      cases hkeyed : keyed (before ++ after) with
      | none => rfl
      | some ms =>
          have hms : ∀ m ∈ ms, _ = false := fun m hm => by
            obtain ⟨m', hm', hcontent⟩ := exists_of_mem_keyed hkeyed hm
            exact hmissing m' hm' m.1 hcontent
          have hvalue := hidle.meaning ((fields.depth_of_find? hfield).trans hroom)
          exact (fields.meaning_cons_of_missing hfield hvalue ms hms).symm

theorem Shape.meaning_object
    {σ τ α : Type} (name : String) (fields : Fields σ τ) (build : σ → α) (parts : α → σ)
    (room : Nat) (members : List (Label × Gaps × Spelling)) (inner : Blanks) :
    (Shape.record name fields build parts).meaning (room + 1) (.object members inner) =
      ((keyed members).bind (fields.meaning room)).map build := by
  rw [Option.map_bind]
  rfl

theorem Shape.meaning_array
    {σ τ α : Type} (name : String) (fields : Fields σ τ) (build : σ → α) (parts : α → σ)
    (room : Nat) (items : List (Gaps × Spelling)) (inner : Blanks) :
    (Shape.record name fields build parts).meaning (room + 1) (.array items inner) =
      (fields.meaningOfItems room (items.map Prod.snd)).map build := by
  rfl

theorem Shape.Respelled.isNull
    {α : Type} {shape : Shape α} {v v' : Spelling} (h : shape.Respelled v v') :
    v.isNull = false ∧ v'.isNull = false := by
  induction h with
  | option _ ih => exact ih
  | checked _ ih => exact ih
  | named _ ih => exact ih
  | _ => exact ⟨rfl, rfl⟩

/-- A shape sees the same in a value before and after a change. -/
theorem Shape.Respelled.meaning
    {α : Type} {shape : Shape α} {v v' : Spelling} (h : shape.Respelled v v') {room : Nat}
    (hroom : shape.depth ≤ room) :
    shape.meaning room v = shape.meaning room v' := by
  induction h generalizing room with
  | members inner h =>
      obtain ⟨room, rfl⟩ := Nat.exists_eq_add_one_of_ne_zero (Nat.ne_zero_of_lt hroom)
      rw [Shape.meaning_object, Shape.meaning_object, h.meaning (Nat.le_of_succ_le_succ hroom)]
  | member before after label gaps inner hkey hfield h ih =>
      obtain ⟨room, rfl⟩ := Nat.exists_eq_add_one_of_ne_zero (Nat.ne_zero_of_lt hroom)
      have hdepth := (Fields.depth_of_find? _ hfield).trans (Nat.le_of_succ_le_succ hroom)
      rw [Shape.meaning_object, Shape.meaning_object,
        Fields.keyed_bind_meaning_congr _ before after hkey hkey hfield hfield (ih hdepth)]
  | trailing items gaps inner hfield hempty =>
      obtain ⟨room, rfl⟩ := Nat.exists_eq_add_one_of_ne_zero (Nat.ne_zero_of_lt hroom)
      have hdepth := (Fields.depth_of_at? _ hfield).trans (Nat.le_of_succ_le_succ hroom)
      have hvalue := (hempty.meaning hdepth).2
      rw [← List.length_map Prod.snd] at hfield
      rw [Shape.meaning_array, Shape.meaning_array, List.map_append]
      exact congrArg _ (Fields.meaningOfItems_append _ _ hfield hvalue).symm
  | element before after gaps inner hfield h ih =>
      obtain ⟨room, rfl⟩ := Nat.exists_eq_add_one_of_ne_zero (Nat.ne_zero_of_lt hroom)
      have hdepth := (Fields.depth_of_at? _ hfield).trans (Nat.le_of_succ_le_succ hroom)
      rw [← List.length_map Prod.snd] at hfield
      rw [Shape.meaning_array, Shape.meaning_array, List.map_append, List.map_append,
        List.map_cons, List.map_cons, Fields.meaningOfItems_congr _ _ _ hfield (ih hdepth)]
  | item before after gaps inner h ih =>
      obtain ⟨room, rfl⟩ := Nat.exists_eq_add_one_of_ne_zero (Nat.ne_zero_of_lt hroom)
      have hvalue := ih (Nat.le_of_succ_le_succ hroom)
      simp only [Shape.meaning, Spelling.items?, Option.bind_some, within, List.map_append,
        List.map_cons, List.mapM_append, List.mapM_cons, hvalue]
  | option h ih =>
      obtain ⟨hnull, hnull'⟩ := h.isNull
      rw [Shape.meaning, Shape.meaning, hnull, hnull', ih hroom]
  | left label gaps inner hkey h ih =>
      obtain ⟨room, rfl⟩ := Nat.exists_eq_add_one_of_ne_zero (Nat.ne_zero_of_lt hroom)
      have hvalue := ih ((Nat.le_max_left _ _).trans (Nat.le_of_succ_le_succ hroom))
      simp only [Shape.meaning, Spelling.members?, keyed_cons, hkey]
      simp [keyed, within, sole, hvalue]
  | right label gaps inner hkey hname h ih =>
      obtain ⟨room, rfl⟩ := Nat.exists_eq_add_one_of_ne_zero (Nat.ne_zero_of_lt hroom)
      have hvalue := ih ((Nat.le_max_right _ _).trans (Nat.le_of_succ_le_succ hroom))
      simp only [Shape.meaning, Spelling.members?, keyed_cons, hkey]
      simp [keyed, within, sole, hvalue, List.lookup_cons, beq_eq_false_iff_ne.2 hname]
  | checked h ih => rw [Shape.meaning, Shape.meaning, ih hroom]
  | named h ih => rw [Shape.meaning, Shape.meaning, ih hroom]

end Changes

end FlagStack
