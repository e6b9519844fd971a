/-!
# Tables

A finite map with text keys, kept as the list of its entries in increasing key
order.  The order is the order by code points, and since it is part of the type
a table has one representation.

**Results.**
* `pairwise_insertEntry`: an insertion keeps the order.
* `get?_put_self`, `get?_put_of_ne`: what a look-up finds after an insertion.
-/

namespace FlagStack

/-- Insertion into a list of entries in increasing key order.  An entry under
the same key is replaced. -/
def insertEntry {α : Type} (key : String) (value : α) :
    List (String × α) → List (String × α)
  | [] => [(key, value)]
  | (k, v) :: rest =>
      if key < k then (key, value) :: (k, v) :: rest
      else if key = k then (key, value) :: rest
      else (k, v) :: insertEntry key value rest

/-- A finite map with text keys. -/
structure Table (α : Type) where
  entries : List (String × α)
  increasing : entries.Pairwise (·.1 < ·.1)
deriving DecidableEq

section Entries

variable {α : Type}

theorem mem_insertEntry
    {key : String} {value : α} {e : String × α} {l : List (String × α)}
    (h : e ∈ insertEntry key value l) :
    e = (key, value) ∨ e ∈ l := by
  induction l with
  | nil => simpa [insertEntry] using h
  | cons hd rest ih =>
      rw [insertEntry] at h
      split at h
      · simpa using h
      · split at h
        · grind
        · grind

theorem pairwise_insertEntry
    (key : String) (value : α) {l : List (String × α)}
    (h : l.Pairwise (·.1 < ·.1)) :
    (insertEntry key value l).Pairwise (·.1 < ·.1) := by
  induction l with
  | nil => simp [insertEntry]
  | cons hd rest ih =>
      obtain ⟨k, v⟩ := hd
      obtain ⟨hk, hrest⟩ := List.pairwise_cons.1 h
      rw [insertEntry]
      split
      · next hlt =>
          refine List.pairwise_cons.2 ⟨?_, h⟩
          intro e he
          rcases List.mem_cons.1 he with rfl | he
          · exact hlt
          · exact String.lt_trans hlt (hk e he)
      · next hnlt =>
          split
          · next heq =>
              subst heq
              exact List.pairwise_cons.2 ⟨hk, hrest⟩
          · next hne =>
              refine List.pairwise_cons.2 ⟨?_, ih hrest⟩
              intro e he
              rcases mem_insertEntry he with rfl | he
              · apply Decidable.byContradiction
                intro hkk
                exact hne (String.le_antisymm (String.not_lt.1 hkk) (String.not_lt.1 hnlt))
              · exact hk e he

end Entries

namespace Table

variable {α : Type}

def empty : Table α := ⟨[], .nil⟩

instance : Inhabited (Table α) := ⟨empty⟩

/-- The table with `value` under `key`, in place of what was there. -/
def put (t : Table α) (key : String) (value : α) : Table α :=
  ⟨insertEntry key value t.entries, pairwise_insertEntry key value t.increasing⟩

/-- What stands under `key`. -/
def get? (t : Table α) (key : String) : Option α :=
  t.entries.lookup key

def contains (t : Table α) (key : String) : Bool :=
  (t.get? key).isSome

def keys (t : Table α) : List String :=
  t.entries.map (·.1)

def size (t : Table α) : Nat :=
  t.entries.length

def isEmpty (t : Table α) : Bool :=
  t.entries.isEmpty

/-- The table with every value changed. -/
def map {β : Type} (f : α → β) (t : Table α) : Table β :=
  ⟨t.entries.map fun e => (e.1, f e.2), List.pairwise_map.2 t.increasing⟩

/-- Entries put in one after the other: of two under one key the last stays. -/
def ofList (entries : List (String × α)) : Table α :=
  entries.foldl (fun t e => t.put e.1 e.2) empty

@[simp] theorem get?_empty (key : String) :
    (empty : Table α).get? key = none := by
  rfl

@[simp] theorem get?_put_self
    (t : Table α) (key : String) (value : α) :
    (t.put key value).get? key = some value := by
  obtain ⟨l, hl⟩ := t
  simp only [get?, put]
  clear hl
  induction l with
  | nil => simp [insertEntry]
  | cons hd rest ih =>
      obtain ⟨k, v⟩ := hd
      simp only [insertEntry]
      split
      · simp
      · split
        · simp
        · next hne => simp [List.lookup_cons, beq_eq_false_iff_ne.2 hne, ih]

theorem get?_put_of_ne
    (t : Table α) {key other : String} (value : α)
    (h : other ≠ key) :
    (t.put key value).get? other = t.get? other := by
  obtain ⟨l, hl⟩ := t
  simp only [get?, put]
  clear hl
  have hne : (other == key) = false := beq_eq_false_iff_ne.2 h
  induction l with
  | nil => simp [insertEntry, h]
  | cons hd rest ih =>
      obtain ⟨k, v⟩ := hd
      simp only [insertEntry]
      split
      · simp [List.lookup_cons, hne]
      · split
        · next heq => subst heq; simp [List.lookup_cons, hne]
        · simp [List.lookup_cons, ih]

end Table
end FlagStack
