import FlagStack.Table
import Mathlib.Data.List.Induction
import Mathlib.Data.List.Nodup
import Mathlib.Data.List.Perm.Basic

/-!
# Tables as finite maps

What a table holds can be read in two ways: by look-up, and as the list of its
entries.  Since keys increase strictly they differ, and both ways agree.

**Results.**
* `get?_eq_some_iff`: look-up is membership.
* `entries_ofList_perm`: entries with different keys all stay.
* `ofList_eq_of_perm`, `put_comm`: the order in which they are put in does not matter.
* `eq_of_get?_eq`: look-up tells tables apart.
-/

namespace FlagStack

variable {α : Type}

/-- In a list with different keys, look-up is membership. -/
theorem lookup_eq_some_iff_mem
    {l : List (String × α)} (h : (l.map Prod.fst).Nodup)
    {key : String} {value : α} :
    l.lookup key = some value ↔ (key, value) ∈ l := by
  induction l with
  | nil => simp
  | cons hd rest ih =>
      obtain ⟨k, v⟩ := hd
      rw [List.map_cons, List.nodup_cons] at h
      by_cases hk : key = k
      · subst hk
        have hrest : (key, value) ∉ rest := fun hmem =>
          h.1 (List.mem_map.2 ⟨_, hmem, rfl⟩)
        simp [hrest, eq_comm]
      · have hne : (key == k) = false := beq_eq_false_iff_ne.2 hk
        simp [List.lookup_cons, hne, hk, ih h.2]

theorem lookup_eq_none_iff_not_mem
    {l : List (String × α)} {key : String} :
    l.lookup key = none ↔ key ∉ l.map Prod.fst := by
  rw [List.lookup_eq_none_iff]
  constructor
  · intro h hmem
    obtain ⟨e, he, rfl⟩ := List.mem_map.1 hmem
    simpa using h e he
  · intro h e he
    have hne : key ≠ e.1 := fun heq => h (heq ▸ List.mem_map_of_mem he)
    simpa using hne

/-- Where keys tell items apart, the first item with a key is the one with it. -/
theorem find?_key_eq_some_iff
    {β κ : Type} [DecidableEq κ] {l : List β} {key : β → κ} (h : (l.map key).Nodup)
    {k : κ} {b : β} :
    (l.find? fun x => key x == k) = some b ↔ b ∈ l ∧ key b = k := by
  constructor
  · intro hfind
    exact ⟨List.mem_of_find?_eq_some hfind, by simpa using List.find?_some hfind⟩
  · rintro ⟨hb, rfl⟩
    cases hfind : l.find? fun x => key x == key b with
    | none =>
        have hne := List.find?_eq_none.1 hfind b hb
        simp at hne
    | some b' =>
        have hkey : key b' = key b := by simpa using List.find?_some hfind
        rw [List.inj_on_of_nodup_map h (List.mem_of_find?_eq_some hfind) hb hkey]

theorem perm_insertEntry
    {l : List (String × α)} {key : String} (value : α)
    (h : key ∉ l.map Prod.fst) :
    (insertEntry key value l).Perm ((key, value) :: l) := by
  induction l with
  | nil => rfl
  | cons hd rest ih =>
      obtain ⟨k, v⟩ := hd
      simp only [List.map_cons, List.mem_cons, not_or] at h
      rw [insertEntry]
      split
      · rfl
      · rw [if_neg h.1]
        exact (List.Perm.cons _ (ih h.2)).trans (List.Perm.swap _ _ _)

namespace Table

theorem nodup_keys
    (t : Table α) :
    (t.entries.map Prod.fst).Nodup := by
  refine List.pairwise_map.2 (t.increasing.imp ?_)
  intro a b hlt heq
  exact String.lt_irrefl _ (heq ▸ hlt)

theorem get?_eq_some_iff
    {t : Table α} {key : String} {value : α} :
    t.get? key = some value ↔ (key, value) ∈ t.entries :=
  lookup_eq_some_iff_mem t.nodup_keys

theorem contains_iff_mem_keys
    {t : Table α} {key : String} :
    t.contains key ↔ key ∈ t.keys := by
  rw [contains, Option.isSome_iff_ne_none, ne_eq, get?, lookup_eq_none_iff_not_mem, not_not]
  rfl

theorem contains_eq_true_iff
    {t : Table α} {key : String} :
    t.contains key ↔ ∃ value, t.get? key = some value :=
  Option.isSome_iff_exists

theorem size_put
    {t : Table α} {key : String} (value : α)
    (h : t.contains key = false) :
    (t.put key value).size = t.size + 1 := by
  have hkey : key ∉ t.entries.map Prod.fst := fun hmem =>
    absurd (contains_iff_mem_keys.2 hmem) (by simp [h])
  simpa [size, put] using (perm_insertEntry value hkey).length_eq

@[simp] theorem ofList_nil :
    (ofList [] : Table α) = empty := by
  rfl

@[simp] theorem ofList_append_singleton
    (l : List (String × α)) (key : String) (value : α) :
    ofList (l ++ [(key, value)]) = (ofList l).put key value := by
  simp [ofList]

/-- Of entries with different keys none is lost. -/
theorem entries_ofList_perm
    {l : List (String × α)} (h : (l.map Prod.fst).Nodup) :
    (ofList l).entries.Perm l := by
  induction l using List.reverseRecOn with
  | nil => simp [empty]
  | append_singleton l e ih =>
      obtain ⟨key, value⟩ := e
      rw [List.map_append, List.nodup_append] at h
      obtain ⟨hl, -, hkey⟩ := h
      have hperm := ih hl
      have hnew : key ∉ (ofList l).entries.map Prod.fst := by
        intro hmem
        have hmem := (hperm.map Prod.fst).mem_iff.1 hmem
        exact hkey key hmem key (by simp) rfl
      rw [ofList_append_singleton]
      refine (perm_insertEntry value hnew).trans ?_
      exact (hperm.cons _).trans (List.perm_append_singleton _ _).symm

/-- Since the order of the entries is given by their keys, a table is determined by
which entries it has. -/
theorem eq_of_entries_perm
    {t t' : Table α} (h : t.entries.Perm t'.entries) :
    t = t' := by
  have heq := h.eq_of_pairwise
    (fun a b _ _ hab hba => absurd hba (String.lt_asymm hab)) t.increasing t'.increasing
  cases t
  cases t'
  cases heq
  rfl

/-- Of entries with different keys the order does not matter. -/
theorem ofList_eq_of_perm
    {l l' : List (String × α)} (hperm : l.Perm l') (h : (l.map Prod.fst).Nodup) :
    ofList l = ofList l' := by
  have h' : (l'.map Prod.fst).Nodup := (hperm.map Prod.fst).nodup_iff.1 h
  refine eq_of_entries_perm ?_
  exact ((entries_ofList_perm h).trans hperm).trans (entries_ofList_perm h').symm

/-- Tables in which each look-up finds the same are the same. -/
theorem eq_of_get?_eq
    {t t' : Table α} (h : ∀ key, t.get? key = t'.get? key) :
    t = t' := by
  have hmem : ∀ e, e ∈ t.entries ↔ e ∈ t'.entries := by
    rintro ⟨key, value⟩
    rw [← get?_eq_some_iff, h key, get?_eq_some_iff]
  refine eq_of_entries_perm ((List.perm_ext_iff_of_nodup ?_ ?_).2 hmem)
  · exact t.nodup_keys.of_map _
  · exact t'.nodup_keys.of_map _

/-- Insertions under different keys commute. -/
theorem put_comm
    (t : Table α) {key key' : String} (value value' : α) (h : key ≠ key') :
    (t.put key value).put key' value' = (t.put key' value').put key value := by
  refine eq_of_get?_eq fun k => ?_
  by_cases hk : k = key
  · subst hk
    rw [get?_put_of_ne _ _ h, get?_put_self, get?_put_self]
  · by_cases hk' : k = key'
    · subst hk'
      rw [get?_put_self, get?_put_of_ne _ _ h.symm, get?_put_self]
    · rw [get?_put_of_ne _ _ hk', get?_put_of_ne _ _ hk, get?_put_of_ne _ _ hk,
        get?_put_of_ne _ _ hk']

theorem get?_ofList_eq_some_iff
    {l : List (String × α)} (h : (l.map Prod.fst).Nodup)
    {key : String} {value : α} :
    (ofList l).get? key = some value ↔ (key, value) ∈ l := by
  rw [get?_eq_some_iff, (entries_ofList_perm h).mem_iff]

theorem contains_ofList
    {l : List (String × α)} (h : (l.map Prod.fst).Nodup)
    {key : String} :
    (ofList l).contains key ↔ key ∈ l.map Prod.fst := by
  rw [contains_iff_mem_keys, keys, ((entries_ofList_perm h).map Prod.fst).mem_iff]

theorem size_ofList
    {l : List (String × α)} (h : (l.map Prod.fst).Nodup) :
    (ofList l).size = l.length :=
  (entries_ofList_perm h).length_eq

@[simp] theorem get?_map
    {β : Type} (f : α → β) (t : Table α) (key : String) :
    (t.map f).get? key = (t.get? key).map f := by
  obtain ⟨l, hl⟩ := t
  simp only [get?, map]
  clear hl
  induction l with
  | nil => rfl
  | cons hd rest ih =>
      rw [List.map_cons, List.lookup_cons, List.lookup_cons, ih]
      split <;> rfl

end Table
end FlagStack
