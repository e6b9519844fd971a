import FlagStack.Project
import Mathlib.Data.List.Forall2
import Mathlib.Data.List.Nodup
import Mathlib.Logic.Relator

/-!
# Records

What an object has to show is said property by property: the key, and a condition on
the value, or nothing where the property has to be absent.  A record shows these
properties and no others, in any order.

Rendering lists the properties that may be given and leaves out those that are not;
what comes of that is a record.  Conversely two lists of properties that one record
shows agree with each other, so that what is shown can be read off the record.

**Results.**
* `isRecord_present`: rendered properties make a record.
* `IsRecord.agrees`: two ways to say what a record shows agree.
* `Agrees.eq_of_always`, `Agrees.eq_of_given`, `Agrees.eq_of_unlessEmpty`: what they
  say is the same if values show only one thing.
-/

namespace FlagStack
namespace Json

variable {α : Type}

/-- The value is a text. -/
def IsText (s : String) (v : Json) : Prop :=
  v = .string s

/-- The value is a count. -/
def IsCount (n : UInt32) (v : Json) : Prop :=
  v = .integer n.toNat

/-- The value is an array of as many items, each of which shows the one at its place. -/
def IsArrayOf (is : α → Json → Prop) (l : List α) (v : Json) : Prop :=
  ∃ items, v = .array items ∧ List.Forall₂ is l items

theorem isText_string
    (s : String) :
    IsText s (.string s) := by
  rfl

theorem isCount_integer
    (n : UInt32) :
    IsCount n (.integer n.toNat) := by
  rfl

/-- A property of a record: its key, and what its value has to be, or nothing where the
record does not have it. -/
structure Property where
  key : String
  shown : Option (Json → Prop)

namespace Property

/-- A property that is there. -/
def always (key : String) (is : Json → Prop) : Property :=
  ⟨key, some is⟩

/-- A property that is not there. -/
def absent (key : String) : Property :=
  ⟨key, none⟩

/-- A property that is there just if something is given. -/
def given (key : String) (is : α → Json → Prop) (o : Option α) : Property :=
  ⟨key, o.map is⟩

/-- A list that is there just if it is not empty. -/
def unlessEmpty (key : String) (is : α → Json → Prop) (l : List α) : Property :=
  ⟨key, if l.isEmpty then none else some (IsArrayOf is l)⟩

variable (key : String) (is : α → Json → Prop)

@[simp] theorem key_always
    (p : Json → Prop) :
    (always key p).key = key := by
  rfl

@[simp] theorem key_absent :
    (absent key).key = key := by
  rfl

@[simp] theorem key_given
    (o : Option α) :
    (given key is o).key = key := by
  rfl

@[simp] theorem key_unlessEmpty
    (l : List α) :
    (unlessEmpty key is l).key = key := by
  rfl

end Property

/-- An object with the properties that are there, each of them once, and with nothing
else.  The order does not matter. -/
inductive IsRecord (rows : List Property) : Json → Prop
  | of {members : List (String × Json)}
      (nodup : (members.map Prod.fst).Nodup)
      (keys : ∀ key, key ∈ members.map Prod.fst ↔
        ∃ row ∈ rows, row.key = key ∧ row.shown.isSome)
      (values : ∀ row ∈ rows, ∀ is, row.shown = some is →
        ∃ v, (row.key, v) ∈ members ∧ is v) :
      IsRecord rows (.object members)

section Rendering

variable {is : α → Json → Prop} {render : α → Json}

/-- What is given for a property is what the property has to show. -/
inductive Fits : Property → String × Option Json → Prop
  | absent (key : String) : Fits ⟨key, none⟩ (key, none)
  | shown (key : String) {is : Json → Prop} {v : Json} (h : is v) :
      Fits ⟨key, some is⟩ (key, some v)

theorem fits_always
    (key : String) {p : Json → Prop} {v : Json} (h : p v) :
    Fits (.always key p) (key, some v) :=
  .shown key h

theorem fits_given
    (key : String) (h : ∀ a, is a (render a)) (o : Option α) :
    Fits (.given key is o) (key, o.map render) := by
  cases o with
  | none => exact .absent key
  | some a => exact .shown key (h a)

theorem isArrayOf_map
    {l : List α} (h : ∀ a ∈ l, is a (render a)) :
    IsArrayOf is l (.array (l.map render)) :=
  ⟨_, rfl, List.forall₂_map_right_iff.2 (List.forall₂_same.2 h)⟩

theorem fits_unlessEmpty
    (key : String) (h : ∀ a, is a (render a)) (l : List α) :
    Fits (.unlessEmpty key is l) (key, nonEmptyProperty render l) := by
  rw [Property.unlessEmpty, nonEmptyProperty]
  split
  · exact .absent key
  · exact .shown key (isArrayOf_map fun a _ => h a)

/-- The keys of what is given are those of the properties that are there. -/
theorem mem_keys_present_iff
    {rows : List Property} {given : List (String × Option Json)}
    (h : List.Forall₂ Fits rows given) (key : String) :
    key ∈ (present given).map Prod.fst ↔ ∃ row ∈ rows, row.key = key ∧ row.shown.isSome := by
  induction h with
  | nil => simp [present]
  | cons hfits _ ih =>
      cases hfits with
      | absent k => simpa [present] using ih
      | @shown k _ v _ =>
          have hpresent (rest : List (String × Option Json)) :
              (present ((k, some v) :: rest)).map Prod.fst = k :: (present rest).map Prod.fst := rfl
          rw [hpresent, List.mem_cons, ih]
          simp [@eq_comm _ key]

theorem exists_mem_present
    {rows : List Property} {given : List (String × Option Json)}
    (h : List.Forall₂ Fits rows given) {row : Property} (hrow : row ∈ rows)
    {p : Json → Prop} (hp : row.shown = some p) :
    ∃ v, (row.key, v) ∈ present given ∧ p v := by
  induction h with
  | nil => cases hrow
  | cons hfits _ ih =>
      rcases List.mem_cons.1 hrow with rfl | hrow
      · cases hfits with
        | absent k => cases hp
        | shown k hv =>
            cases hp
            exact ⟨_, List.mem_cons_self, hv⟩
      · obtain ⟨v, hmem, hv⟩ := ih hrow
        refine ⟨v, ?_, hv⟩
        cases hfits with
        | absent k => exact hmem
        | shown k _ => exact List.mem_cons_of_mem _ hmem

/-- No key is given twice if the properties have different keys. -/
theorem nodup_keys_present
    {given : List (String × Option Json)} (h : (given.map Prod.fst).Nodup) :
    ((present given).map Prod.fst).Nodup := by
  refine h.sublist ?_
  clear h
  induction given with
  | nil => exact .slnil
  | cons g rest ih =>
      obtain ⟨key, o⟩ := g
      cases o with
      | none => exact ih.cons _
      | some v => exact ih.cons_cons _

/-- Rendered properties make a record. -/
theorem isRecord_present
    {rows : List Property} {given : List (String × Option Json)}
    (hnodup : (given.map Prod.fst).Nodup) (h : List.Forall₂ Fits rows given) :
    IsRecord rows (.object (present given)) := by
  refine .of (nodup_keys_present hnodup) (mem_keys_present_iff h) ?_
  intro row hrow p hp
  exact exists_mem_present h hrow hp

/-- Members that are all given make a record. -/
theorem isRecord_object
    {rows : List Property} {members : List (String × Json)}
    (hnodup : (members.map Prod.fst).Nodup)
    (h : List.Forall₂ Fits rows (members.map fun m => (m.1, some m.2))) :
    IsRecord rows (.object members) := by
  have hpresent : present (members.map fun m => (m.1, some m.2)) = members := by
    rw [present, List.filterMap_map]
    exact List.filterMap_some
  have hrecord := isRecord_present (by simpa [Function.comp_def] using hnodup) h
  rwa [hpresent] at hrecord

end Rendering

section Agreement

variable {is : α → Json → Prop}

/-- One value meets both conditions, or both properties are absent. -/
inductive Agrees : Property → Property → Prop
  | absent (key : String) : Agrees ⟨key, none⟩ ⟨key, none⟩
  | shown (key : String) {p q : Json → Prop} {v : Json} (hp : p v) (hq : q v) :
      Agrees ⟨key, some p⟩ ⟨key, some q⟩

theorem eq_of_mem_of_nodup
    {β : Type} {members : List (String × β)} (h : (members.map Prod.fst).Nodup)
    {key : String} {v w : β} (hv : (key, v) ∈ members) (hw : (key, w) ∈ members) :
    v = w :=
  congrArg Prod.snd (List.inj_on_of_nodup_map h hv hw rfl)

/-- A property that one list says is there is there according to the other. -/
theorem exists_shown
    {rows rows' : List Property} (hnodup : (rows'.map Property.key).Nodup)
    {members : List (String × Json)}
    (hkeys : ∀ key, key ∈ members.map Prod.fst ↔
      ∃ row ∈ rows, row.key = key ∧ row.shown.isSome)
    (hkeys' : ∀ key, key ∈ members.map Prod.fst ↔
      ∃ row ∈ rows', row.key = key ∧ row.shown.isSome)
    {row row' : Property} (hrow : row ∈ rows) (hrow' : row' ∈ rows') (hkey : row.key = row'.key)
    (hshown : row.shown.isSome) :
    row'.shown.isSome := by
  obtain ⟨other, hother, hsame, hgiven⟩ := (hkeys' row.key).1 ((hkeys _).2 ⟨row, hrow, rfl, hshown⟩)
  rwa [← List.inj_on_of_nodup_map hnodup hother hrow' (hsame.trans hkey)]

/-- Two properties with one key that a record shows agree. -/
theorem IsRecord.agrees_of_mem
    {rows rows' : List Property} {v : Json} (h : IsRecord rows v) (h' : IsRecord rows' v)
    (hnodup : (rows.map Property.key).Nodup) (hnodup' : (rows'.map Property.key).Nodup)
    {row row' : Property} (hrow : row ∈ rows) (hrow' : row' ∈ rows')
    (hkey : row.key = row'.key) :
    Agrees row row' := by
  cases h with
  | of hmembers hkeys hvalues =>
      cases h' with
      | of _ hkeys' hvalues' =>
          have hforth := exists_shown hnodup' hkeys hkeys' hrow hrow' hkey
          have hback := exists_shown hnodup hkeys' hkeys hrow' hrow hkey.symm
          obtain ⟨key, o⟩ := row
          obtain ⟨key', o'⟩ := row'
          cases hkey
          cases o with
          | none =>
              cases o' with
              | none => exact .absent key
              | some q => cases hback rfl
          | some p =>
              cases o' with
              | none => cases hforth rfl
              | some q =>
                  obtain ⟨w, hw, hp⟩ := hvalues _ hrow p rfl
                  obtain ⟨w', hw', hq⟩ := hvalues' _ hrow' q rfl
                  cases eq_of_mem_of_nodup hmembers hw hw'
                  exact .shown key hp hq

/-- Two ways to say what a record shows agree, property by property. -/
theorem IsRecord.agrees
    {rows rows' : List Property} {v : Json} (h : IsRecord rows v) (h' : IsRecord rows' v)
    (hkeys : rows.map Property.key = rows'.map Property.key)
    (hnodup : (rows.map Property.key).Nodup) :
    List.Forall₂ Agrees rows rows' := by
  have hlength : rows.length = rows'.length := by
    simpa using congrArg List.length hkeys
  refine List.forall₂_iff_get.2 ⟨hlength, ?_⟩
  intro i hi hi'
  refine h.agrees_of_mem h' hnodup (hkeys ▸ hnodup) (List.get_mem _ _) (List.get_mem _ _) ?_
  have hplace : (rows.map Property.key)[i]? = (rows'.map Property.key)[i]? := by
    rw [hkeys]
  simpa [hi, hi'] using hplace

theorem Agrees.exists_of_always
    {key key' : String} {p q : Json → Prop} (h : Agrees (.always key p) (.always key' q)) :
    ∃ v, p v ∧ q v := by
  cases h with
  | shown _ hp hq => exact ⟨_, hp, hq⟩

theorem Agrees.eq_of_always
    (hunique : Relator.LeftUnique is) {key key' : String} {a b : α}
    (h : Agrees (.always key (is a)) (.always key' (is b))) :
    a = b := by
  obtain ⟨v, ha, hb⟩ := h.exists_of_always
  exact hunique ha hb

theorem Agrees.eq_of_given
    (hunique : Relator.LeftUnique is) {key key' : String} {o o' : Option α}
    (h : Agrees (.given key is o) (.given key' is o')) :
    o = o' := by
  cases o with
  | none =>
      cases o' with
      | none => rfl
      | some b => cases h
  | some a =>
      cases o' with
      | none => cases h
      | some b => exact congrArg some (Agrees.eq_of_always hunique h)

/-- Arrays are of the same items if no two of the items can be shown by one value. -/
theorem eq_of_isArrayOf
    {l l' : List α} {v : Json}
    (hunique : ∀ a ∈ l, ∀ b ∈ l', ∀ w, is a w → is b w → a = b)
    (h : IsArrayOf is l v) (h' : IsArrayOf is l' v) :
    l = l' := by
  obtain ⟨items, rfl, hitems⟩ := h
  obtain ⟨_, heq, hitems'⟩ := h'
  cases heq
  induction hitems generalizing l' with
  | nil =>
      cases hitems'
      rfl
  | cons ha _ ih =>
      cases hitems' with
      | cons hb hrest =>
          have hhead := hunique _ List.mem_cons_self _ List.mem_cons_self _ ha hb
          have htail := ih (fun a ha b hb => hunique a (.tail _ ha) b (.tail _ hb)) hrest
          rw [hhead, htail]

theorem leftUnique_isArrayOf
    (hunique : Relator.LeftUnique is) :
    Relator.LeftUnique (IsArrayOf is) := by
  intro l l' v h h'
  refine eq_of_isArrayOf ?_ h h'
  exact fun _ _ _ _ _ ha hb => hunique ha hb

theorem Agrees.eq_of_unlessEmpty
    (hunique : Relator.LeftUnique is) {key key' : String} {l l' : List α}
    (h : Agrees (.unlessEmpty key is l) (.unlessEmpty key' is l')) :
    l = l' := by
  cases l with
  | nil =>
      cases l' with
      | nil => rfl
      | cons b l' => cases h
  | cons a l =>
      cases l' with
      | nil => cases h
      | cons b l' => exact Agrees.eq_of_always (leftUnique_isArrayOf hunique) h

theorem leftUnique_isText :
    Relator.LeftUnique IsText := by
  rintro s t v rfl h
  exact Json.string.inj h

theorem leftUnique_isCount :
    Relator.LeftUnique IsCount := by
  rintro m n v rfl h
  exact UInt32.toNat_inj.1 (Int.ofNat.inj (Json.integer.inj h))

end Agreement
end Json
end FlagStack
