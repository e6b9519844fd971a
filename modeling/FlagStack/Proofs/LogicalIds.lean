import FlagStack.Digest
import FlagStack.EntryId
import FlagStack.Stack

/-!
# Logical ids

A logical id is a text of letters and digits that is not empty.  An id is
filtered to one before it is used, which changes nothing if it is one already.

**Results.**
* `logicalIdOf_eq`: which ids have a logical id, and which one.
* `isLogicalId_candidateId`: ids of entries have letters and digits only, if
  digests do.
* `alphanumeric_ofText`: digests do.
-/

namespace FlagStack

/-- A text of letters and digits only. -/
def Alphanumeric (s : String) : Prop :=
  ∀ c ∈ s.toList, c.isAlphanum

instance (s : String) : Decidable (Alphanumeric s) :=
  decidable_of_iff (s.toList.all Char.isAlphanum) List.all_eq_true

/-- A text that can stand as a key of a template. -/
def IsLogicalId (s : String) : Prop :=
  s ≠ "" ∧ Alphanumeric s

/-- The letters and digits of a text. -/
def keptOf (id : String) : String :=
  String.ofList (id.toList.filter Char.isAlphanum)

section Texts

theorem alphanumeric_empty :
    Alphanumeric "" := by
  intro c hc
  cases hc

theorem alphanumeric_arn :
    Alphanumeric "Arn" := by
  decide

@[simp] theorem alphanumeric_append
    {s t : String} :
    Alphanumeric (s ++ t) ↔ Alphanumeric s ∧ Alphanumeric t := by
  simp only [Alphanumeric, String.toList_append, List.mem_append]
  constructor
  · intro h
    exact ⟨fun c hc => h c (.inl hc), fun c hc => h c (.inr hc)⟩
  · rintro ⟨hs, ht⟩ c (hc | hc)
    · exact hs c hc
    · exact ht c hc

@[simp] theorem alphanumeric_ofList
    {l : List Char} :
    Alphanumeric (String.ofList l) ↔ ∀ c ∈ l, c.isAlphanum := by
  simp [Alphanumeric]

theorem alphanumeric_keptOf
    (id : String) :
    Alphanumeric (keptOf id) := by
  rw [keptOf, alphanumeric_ofList]
  exact fun c hc => (List.mem_filter.1 hc).2

/-- Filtering changes nothing that has letters and digits only. -/
theorem keptOf_of_alphanumeric
    {s : String} (h : Alphanumeric s) :
    keptOf s = s := by
  rw [keptOf, List.filter_eq_self.2 h, String.ofList_toList]

theorem keptOf_eq_empty_iff
    (id : String) :
    keptOf id = "" ↔ ∀ c ∈ id.toList, ¬ c.isAlphanum := by
  rw [keptOf, ← String.toList_inj, String.toList_ofList]
  simp

theorem keptOf_ne_empty_iff
    {id : String} :
    keptOf id ≠ "" ↔ ∃ c ∈ id.toList, c.isAlphanum := by
  rw [ne_eq, keptOf_eq_empty_iff]
  simp

theorem alphanumeric_toString
    (n : Nat) :
    Alphanumeric (toString n) := by
  intro c hc
  have hdigit : c.isDigit := by
    rw [Nat.toString_eq_repr, Nat.toList_repr] at hc
    exact Nat.isDigit_of_mem_toDigits (by decide) (by decide) hc
  simp [Char.isAlphanum, hdigit]

theorem isAlphanum_toUpper
    {c : Char} (h : c.isAlphanum) :
    c.toUpper.isAlphanum := by
  by_cases hlower : 'a'.val ≤ c.val ∧ c.val ≤ 'z'.val
  · have hval : c.toUpper.val = c.val + ('A'.val - 'a'.val) := by
      delta Char.toUpper
      rw [dif_pos hlower]
    have hupper : c.toUpper.isUpper := by
      obtain ⟨hge, hle⟩ := hlower
      show decide ('A'.val ≤ c.toUpper.val ∧ c.toUpper.val ≤ 'Z'.val) = true
      rw [hval, decide_eq_true_iff]
      simp [UInt32.le_iff_toNat_le] at hge hle ⊢
      omega
    show (c.toUpper.isUpper || c.toUpper.isLower || c.toUpper.isDigit) = true
    rw [hupper, Bool.true_or, Bool.true_or]
  · have hsame : c.toUpper = c := dif_neg hlower
    rwa [hsame]

theorem isAlphanum_digitChar
    {n : Nat} (h : n < 16) :
    n.digitChar.isAlphanum := by
  revert n
  decide

theorem isLogicalId_append
    {s t : String} (hs : IsLogicalId s) (ht : Alphanumeric t) :
    IsLogicalId (s ++ t) :=
  ⟨by simp [hs.1], alphanumeric_append.2 ⟨hs.2, ht⟩⟩

theorem alphanumeric_label
    (kind : Kind) :
    Alphanumeric kind.label := by
  cases kind <;> decide

end Texts

section Filtering

theorem logicalIdOf_eq
    (id : String) :
    logicalIdOf id = if keptOf id = "" then .error (.blankId id) else .ok (keptOf id) := by
  have hempty : keptOf id = "" ↔ (id.toList.filter Char.isAlphanum).isEmpty := by
    rw [keptOf, ← String.toList_inj, String.toList_ofList, List.isEmpty_iff]
    rfl
  simp only [logicalIdOf, ← hempty]
  rfl

/-- Filtering leaves a logical id alone. -/
theorem logicalIdOf_of_isLogicalId
    {id : String} (h : IsLogicalId id) :
    logicalIdOf id = .ok id := by
  rw [logicalIdOf_eq, keptOf_of_alphanumeric h.2, if_neg h.1]

end Filtering

section Entries

variable {digest : String → String}

theorem alphanumeric_baseId
    (hd : ∀ name, Alphanumeric (digest name)) (kind : Kind) (name : String) :
    Alphanumeric (Entry.baseId digest ⟨kind.label, name⟩) := by
  have hkept : ∀ c ∈ name.toList.filter Char.isAlphanum, c.isAlphanum := fun c hc =>
    (List.mem_filter.1 hc).2
  simp only [Entry.baseId, alphanumeric_append, alphanumeric_ofList]
  refine ⟨⟨alphanumeric_label kind, ?_⟩, ?_⟩
  · cases hk : name.toList.filter Char.isAlphanum with
    | nil => simp
    | cons c rest =>
        rw [hk, List.forall_mem_cons] at hkept
        exact List.forall_mem_cons.2 ⟨isAlphanum_toUpper hkept.1, hkept.2⟩
  · split
    · exact hd name
    · exact alphanumeric_empty

theorem baseId_ne_empty
    (kind : Kind) (name : String) :
    Entry.baseId digest ⟨kind.label, name⟩ ≠ "" := by
  cases kind <;> simp [Entry.baseId, Kind.label]

/-- Every id that is tried for an entry can stand as a key as it is. -/
theorem isLogicalId_candidateId
    (hd : ∀ name, Alphanumeric (digest name)) (kind : Kind) (name : String) (tried : Nat) :
    IsLogicalId (candidateId (Entry.baseId digest ⟨kind.label, name⟩) tried) := by
  have hbase : IsLogicalId (Entry.baseId digest ⟨kind.label, name⟩) :=
    ⟨baseId_ne_empty kind name, alphanumeric_baseId hd kind name⟩
  rw [candidateId]
  split
  · exact hbase
  · exact isLogicalId_append hbase (alphanumeric_toString _)

theorem alphanumeric_ofText
    (s : String) :
    Alphanumeric (Digest.ofText s) := by
  rw [Digest.ofText, alphanumeric_ofList, Digest.hexWord]
  intro c hc
  obtain ⟨i, -, rfl⟩ := List.mem_map.1 hc
  exact isAlphanum_digitChar (Nat.mod_lt _ (by decide))

end Entries
end FlagStack
