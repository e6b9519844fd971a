import FlagStack.EntryId
import FlagStack.Proofs.Tables
import Mathlib.Data.List.Nodup

/-!
# Ids of entries are kept apart

Ids are assigned one after the other.  What has been assigned so far is settled:
no id is in use twice, and every entry has the first of its candidates that no
other entry has.  Assigning another id keeps it so.

Nothing is assumed of the digest, and nothing of the names.

**Results.**
* `candidateId_injective`: the candidates of an entry differ.
* `exists_firstOpen`: the search ends at the first candidate that is not foreign.
* `settled_assign`: an assignment keeps what is in use settled.
* `assign_of_mem`, `assign_of_not_mem`: an entry that has an id gets it again, and
  any other gets one that is not in use.
-/

namespace FlagStack

section Candidates

theorem toString_injective :
    Function.Injective (fun n : Nat => toString n) := by
  intro m n h
  have hdigits : Nat.toDigits 10 m = Nat.toDigits 10 n := by
    simpa only [Nat.toString_eq_repr, Nat.repr_eq_ofList_toDigits, String.ofList_inj] using h
  have hread := congrArg (fun l => Nat.ofDigitChars 10 l 0) hdigits
  simpa [Nat.ofDigitChars_toDigits] using hread

/-- The candidates for one id differ. -/
theorem candidateId_injective
    (base : String) :
    Function.Injective (candidateId base) := by
  intro m n h
  have hlonger : ∀ k : Nat, base ≠ base ++ toString k := by
    intro k hk
    have hnil : Nat.toDigits 10 k = [] := by
      simpa [Nat.toList_repr] using congrArg String.toList hk
    exact Nat.toDigits_ne_nil hnil
  simp only [candidateId] at h
  split at h <;> split at h
  · omega
  · exact absurd h (hlonger _)
  · exact absurd h.symm (hlonger _)
  · have := toString_injective ((String.append_right_inj base).1 h)
    omega

end Candidates

namespace EntryIds

variable {ids : EntryIds} {e : Entry}

section Search

theorem isForeign_iff
    {id : String} :
    ids.isForeign e id ↔ ∃ other, ids.inUse.lookup id = some other ∧ other ≠ e := by
  unfold isForeign
  split
  · next other h => simp [h]
  · next h => simp [h]

theorem mem_keys_of_isForeign
    {id : String} (h : ids.isForeign e id) :
    id ∈ ids.inUse.map Prod.fst := by
  obtain ⟨other, hother, -⟩ := isForeign_iff.1 h
  by_contra hnot
  rw [lookup_eq_none_iff_not_mem.2 hnot] at hother
  cases hother

/-- The search stops at a candidate such that all before it are foreign, and it
is foreign itself only if the bound has been reached. -/
theorem firstOpen_eq
    (ids : EntryIds) (e : Entry) (base : String) (left tried : Nat) :
    ∃ n, tried ≤ n ∧ n ≤ tried + left ∧
      ids.firstOpen e base left tried = candidateId base n ∧
      (∀ j, tried ≤ j → j < n → ids.isForeign e (candidateId base j)) ∧
      (ids.isForeign e (candidateId base n) → n = tried + left) := by
  induction left generalizing tried with
  | zero =>
      exact ⟨tried, Nat.le_refl _, Nat.le_refl _, rfl, fun j hle hlt => absurd hlt (by omega), fun _ => rfl⟩
  | succ left ih =>
      by_cases hforeign : ids.isForeign e (candidateId base tried)
      · obtain ⟨n, hle, hbound, heq, hbefore, hlast⟩ := ih (tried + 1)
        refine ⟨n, by omega, by omega, ?_, ?_, fun h => by have := hlast h; omega⟩
        · rw [firstOpen, if_pos hforeign, heq]
        · intro j hj hlt
          rcases Nat.eq_or_lt_of_le hj with rfl | hj
          · exact hforeign
          · exact hbefore j hj hlt
      · refine ⟨tried, Nat.le_refl _, by omega, ?_, fun j hle hlt => absurd hlt (by omega), ?_⟩
        · rw [firstOpen, if_neg hforeign]
        · exact fun h => absurd h hforeign

/-- Foreign candidates are ids in use, and they differ. -/
theorem le_length_of_foreign
    {base : String} {n : Nat}
    (h : ∀ j < n, ids.isForeign e (candidateId base j)) :
    n ≤ ids.inUse.length := by
  have hnodup : ((List.range n).map (candidateId base)).Nodup :=
    List.nodup_range.map (candidateId_injective base)
  have hsub : (List.range n).map (candidateId base) ⊆ ids.inUse.map Prod.fst := by
    intro id hid
    obtain ⟨j, hj, rfl⟩ := List.mem_map.1 hid
    exact mem_keys_of_isForeign (h j (List.mem_range.1 hj))
  simpa using (List.subperm_of_subset hnodup hsub).length_le

/-- The search of an assignment finds the first candidate that is not foreign. -/
theorem exists_firstOpen
    (ids : EntryIds) (e : Entry) (base : String) :
    ∃ n, n ≤ ids.inUse.length ∧
      ids.firstOpen e base ids.inUse.length 0 = candidateId base n ∧
      (∀ j < n, ids.isForeign e (candidateId base j)) ∧
      ¬ ids.isForeign e (candidateId base n) := by
  obtain ⟨n, -, hbound, heq, hbefore, hlast⟩ :=
    firstOpen_eq ids e base ids.inUse.length 0
  refine ⟨n, by omega, heq, fun j hj => hbefore j (Nat.zero_le j) hj, ?_⟩
  intro hforeign
  have hall : ∀ j < n + 1, ids.isForeign e (candidateId base j) := by
    intro j hj
    rcases Nat.lt_succ_iff_lt_or_eq.1 hj with hj | rfl
    · exact hbefore j (Nat.zero_le j) hj
    · exact hforeign
  have := le_length_of_foreign hall
  have := hlast hforeign
  omega

end Search

/-- No id is in use twice, and every entry has the first of its candidates that
no other entry has. -/
structure Settled (digest : String → String) (ids : EntryIds) : Prop where
  nodup : (ids.inUse.map Prod.fst).Nodup
  refused : ∀ id e, (id, e) ∈ ids.inUse →
    ∃ n, id = candidateId (e.baseId digest) n ∧
      ∀ j < n, ids.isForeign e (candidateId (e.baseId digest) j)

section Assignment

variable {digest : String → String}

theorem settled_empty :
    Settled digest empty where
  nodup := List.nodup_nil
  refused := by
    intro id e h
    cases h

/-- What is foreign stays so when another id is taken into use. -/
theorem isForeign_cons
    {id new : String} {other : Entry}
    (hnew : new ∉ ids.inUse.map Prod.fst) (h : ids.isForeign e id) :
    isForeign ⟨(new, other) :: ids.inUse⟩ e id := by
  have hne : id ≠ new := fun heq => hnew (heq ▸ mem_keys_of_isForeign h)
  obtain ⟨owner, howner, hdiff⟩ := isForeign_iff.1 h
  refine isForeign_iff.2 ⟨owner, ?_, hdiff⟩
  rw [List.lookup_cons, beq_eq_false_iff_ne.2 hne]
  exact howner

/-- An entry that has an id gets it again. -/
theorem assign_of_mem
    (h : Settled digest ids) {id : String} (hmem : (id, e) ∈ ids.inUse) :
    ids.assign digest e = (id, ids) := by
  have hown : ids.inUse.lookup id = some e := (lookup_eq_some_iff_mem h.nodup).2 hmem
  have hid : ¬ ids.isForeign e id := by
    rw [isForeign_iff]
    rintro ⟨other, hother, hne⟩
    rw [hown] at hother
    exact hne (Option.some.inj hother).symm
  obtain ⟨n, rfl, hbefore⟩ := h.refused id e hmem
  obtain ⟨m, -, heq, hrefused, hopen⟩ := exists_firstOpen ids e (e.baseId digest)
  -- Both are the first candidate that is not foreign.
  have hmn : m = n := by
    rcases Nat.lt_trichotomy m n with hlt | heq | hlt
    · exact absurd (hbefore m hlt) hopen
    · exact heq
    · exact absurd (hrefused n hlt) hid
  subst hmn
  simp only [assign, heq, hown]

/-- An entry without an id gets one that is not in use. -/
theorem assign_of_not_mem
    (digest : String → String) (ids : EntryIds) (hnot : e ∉ ids.inUse.map Prod.snd) :
    ∃ n, ids.assign digest e =
        (candidateId (e.baseId digest) n,
          ⟨(candidateId (e.baseId digest) n, e) :: ids.inUse⟩) ∧
      candidateId (e.baseId digest) n ∉ ids.inUse.map Prod.fst ∧
      ∀ j < n, ids.isForeign e (candidateId (e.baseId digest) j) := by
  obtain ⟨n, -, heq, hrefused, hopen⟩ := exists_firstOpen ids e (e.baseId digest)
  have hfree : ids.inUse.lookup (candidateId (e.baseId digest) n) = none := by
    cases hl : ids.inUse.lookup (candidateId (e.baseId digest) n) with
    | none => rfl
    | some owner =>
        have howner : owner = e := by
          by_contra hne
          exact hopen (isForeign_iff.2 ⟨owner, hl, hne⟩)
        subst howner
        obtain ⟨l₁, l₂, hsplit, -⟩ := List.lookup_eq_some_iff.1 hl
        exact absurd (by simp [hsplit]) hnot
  refine ⟨n, ?_, lookup_eq_none_iff_not_mem.1 hfree, hrefused⟩
  simp only [assign, heq, hfree]

theorem settled_assign
    (h : Settled digest ids) (e : Entry) :
    Settled digest (ids.assign digest e).2 := by
  by_cases hmem : e ∈ ids.inUse.map Prod.snd
  · obtain ⟨⟨id, owner⟩, hin, rfl⟩ := List.mem_map.1 hmem
    rw [assign_of_mem h hin]
    exact h
  · obtain ⟨n, heq, hnew, hrefused⟩ := assign_of_not_mem digest ids hmem
    rw [heq]
    refine ⟨List.nodup_cons.2 ⟨hnew, h.nodup⟩, ?_⟩
    intro id owner hin
    rcases List.mem_cons.1 hin with hin | hin
    · obtain ⟨rfl, rfl⟩ := Prod.mk.inj hin
      exact ⟨n, rfl, fun j hj => isForeign_cons hnew (hrefused j hj)⟩
    · obtain ⟨k, hid, hk⟩ := h.refused id owner hin
      exact ⟨k, hid, fun j hj => isForeign_cons hnew (hk j hj)⟩

end Assignment

end EntryIds
end FlagStack
