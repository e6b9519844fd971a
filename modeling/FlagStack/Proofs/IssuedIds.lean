import FlagStack.Proofs.Definitions
import FlagStack.Proofs.EntryIds

/-!
# Ids that are issued one after the other

Entries ask for ids one after the other.  The ids that an entry may get begin with
the label of its kind, and no label begins another, so that what is in use for
other kinds never stands in its way: the ids of one kind are issued as if there
were no other.

**Results.**
* `kind_eq_of_candidateId_eq`: ids of different kinds never meet.
* `issue_ofKind`: the ids of a kind are issued as if there were no other kind.
* `issue_eq_baseIds`: where the ids that are asked for first differ, they are the
  ones that are issued.
* `issue_get_eq_iff`: whatever entries ask and in whatever order, two of them get the
  same id just if they are the same.
-/

namespace FlagStack

section Labels

variable {digest : String → String}

/-- Labels begin with different letters. -/
theorem Kind.eq_of_isPrefix
    {k k' : Kind} {l : List Char}
    (h : k.label.toList <+: l) (h' : k'.label.toList <+: l) :
    k = k' := by
  have hhead : ∀ kind : Kind, kind.label.toList <+: l → l.head? = kind.label.toList.head? := by
    rintro kind ⟨t, rfl⟩
    cases kind <;> rfl
  have hsame : k.label.toList.head? = k'.label.toList.head? := by
    rw [← hhead k h, ← hhead k' h']
  revert hsame
  cases k <;> cases k' <;> decide

theorem label_isPrefix_candidateId
    (digest : String → String) (kind : Kind) (name : String) (tried : Nat) :
    kind.label.toList <+: (candidateId (Entry.baseId digest ⟨kind.label, name⟩) tried).toList := by
  have hbase : kind.label.toList <+: (Entry.baseId digest ⟨kind.label, name⟩).toList := by
    simp only [Entry.baseId, String.toList_append, List.append_assoc]
    exact List.prefix_append _ _
  rw [candidateId]
  split
  · exact hbase
  · rw [String.toList_append]
    exact hbase.trans (List.prefix_append _ _)

/-- Ids of different kinds never meet. -/
theorem kind_eq_of_candidateId_eq
    {k k' : Kind} {name name' : String} {n n' : Nat}
    (h : candidateId (Entry.baseId digest ⟨k.label, name⟩) n =
      candidateId (Entry.baseId digest ⟨k'.label, name'⟩) n') :
    k = k' := by
  have hk := label_isPrefix_candidateId digest k name n
  have hk' := label_isPrefix_candidateId digest k' name' n'
  exact Kind.eq_of_isPrefix hk (h ▸ hk')

end Labels

namespace EntryIds

/-- The ids that entries get when they ask one after the other. -/
def issue (digest : String → String) : EntryIds → List Entry → List String
  | _, [] => []
  | ids, e :: es => (ids.assign digest e).1 :: issue digest (ids.assign digest e).2 es

/-- The ids in use once entries have asked one after the other. -/
def after (digest : String → String) (ids : EntryIds) (es : List Entry) : EntryIds :=
  es.foldl (fun ids e => (ids.assign digest e).2) ids

/-- The ids in use for a kind. -/
def ofKind (kind : Kind) (ids : EntryIds) : EntryIds :=
  ⟨ids.inUse.filter fun u => u.2.kind == kind.label⟩

/-- Every id in use is one that its entry may get. -/
def Proper (digest : String → String) (ids : EntryIds) : Prop :=
  ∀ id e, (id, e) ∈ ids.inUse → ∃ (kind : Kind) (name : String) (n : Nat),
    e = ⟨kind.label, name⟩ ∧ id = candidateId (e.baseId digest) n

variable {digest : String → String} {ids : EntryIds} {e : Entry}

section Assigning

@[simp] theorem length_issue
    (digest : String → String) (ids : EntryIds) (es : List Entry) :
    (ids.issue digest es).length = es.length := by
  induction es generalizing ids with
  | nil => rfl
  | cons e es ih => simp [issue, ih]

theorem issue_append
    (digest : String → String) (ids : EntryIds) (es es' : List Entry) :
    ids.issue digest (es ++ es') =
      ids.issue digest es ++ (ids.after digest es).issue digest es' := by
  induction es generalizing ids with
  | nil => rfl
  | cons e es ih => simp [issue, ih, after]

/-- The id that is assigned is the first candidate that is not foreign. -/
theorem exists_assign_fst
    (digest : String → String) (ids : EntryIds) (e : Entry) :
    ∃ n, (ids.assign digest e).1 = candidateId (e.baseId digest) n ∧
      (∀ j < n, ids.isForeign e (candidateId (e.baseId digest) j)) ∧
      ¬ ids.isForeign e (candidateId (e.baseId digest) n) := by
  obtain ⟨n, -, heq, hbefore, hopen⟩ := exists_firstOpen ids e (e.baseId digest)
  refine ⟨n, ?_, hbefore, hopen⟩
  rw [assign, heq]
  cases ids.inUse.lookup (candidateId (e.baseId digest) n) <;> rfl

theorem assign_snd
    (digest : String → String) (ids : EntryIds) (e : Entry) :
    (ids.assign digest e).2 =
      match ids.inUse.lookup (ids.assign digest e).1 with
      | some _ => ids
      | none => ⟨((ids.assign digest e).1, e) :: ids.inUse⟩ := by
  rw [assign]
  cases h : ids.inUse.lookup (ids.firstOpen e (e.baseId digest) ids.inUse.length 0) <;> simp [h]

/-- Where the same candidates are foreign, the same id is assigned. -/
theorem assign_fst_congr
    {ids' : EntryIds}
    (h : ∀ n, ids.isForeign e (candidateId (e.baseId digest) n) =
      ids'.isForeign e (candidateId (e.baseId digest) n)) :
    (ids.assign digest e).1 = (ids'.assign digest e).1 := by
  obtain ⟨m, hm, hbefore, hopen⟩ := exists_assign_fst digest ids e
  obtain ⟨n, hn, hbefore', hopen'⟩ := exists_assign_fst digest ids' e
  have hmn : m = n := by
    rcases Nat.lt_trichotomy m n with hlt | heq | hlt
    · exact absurd (h m ▸ hbefore' m hlt) hopen
    · exact heq
    · exact absurd (h n ▸ hbefore n hlt) hopen'
  rw [hm, hn, hmn]

end Assigning

section Kinds

variable {kind : Kind} {name : String}

theorem proper_empty :
    Proper digest empty := by
  intro id e h
  cases h

theorem Proper.assign
    (h : Proper digest ids) (kind : Kind) (name : String) :
    Proper digest (ids.assign digest ⟨kind.label, name⟩).2 := by
  obtain ⟨n, hid, -, -⟩ := exists_assign_fst digest ids ⟨kind.label, name⟩
  rw [assign_snd]
  split
  · exact h
  · intro id e hmem
    rcases List.mem_cons.1 hmem with heq | hmem
    · cases heq
      exact ⟨kind, name, n, rfl, hid⟩
    · exact h id e hmem

/-- An id that an entry may get is looked up among those of its kind. -/
theorem Proper.lookup_ofKind
    (h : Proper digest ids) (n : Nat) :
    (ids.ofKind kind).inUse.lookup (candidateId (Entry.baseId digest ⟨kind.label, name⟩) n) =
      ids.inUse.lookup (candidateId (Entry.baseId digest ⟨kind.label, name⟩) n) := by
  obtain ⟨inUse⟩ := ids
  simp only [ofKind]
  induction inUse with
  | nil => rfl
  | cons u rest ih =>
      obtain ⟨id, e⟩ := u
      have hrest := ih fun id e hmem => h id e (List.mem_cons_of_mem _ hmem)
      obtain ⟨k, other, m, rfl, hid⟩ := h id e List.mem_cons_self
      by_cases hk : k = kind
      · subst hk
        simp only [List.filter_cons_of_pos, BEq.rfl, List.lookup_cons, hrest]
      · have hlabel : (k.label == kind.label) = false :=
          beq_eq_false_iff_ne.2 fun heq => hk (Kind.label_injective heq)
        have hne : candidateId (Entry.baseId digest ⟨kind.label, name⟩) n ≠ id := by
          rintro rfl
          exact hk (kind_eq_of_candidateId_eq hid).symm
        rw [List.filter_cons_of_neg (by simp [hlabel]), hrest, List.lookup_cons,
          beq_eq_false_iff_ne.2 hne]

theorem Proper.isForeign_ofKind
    (h : Proper digest ids) (n : Nat) :
    (ids.ofKind kind).isForeign ⟨kind.label, name⟩
        (candidateId (Entry.baseId digest ⟨kind.label, name⟩) n) =
      ids.isForeign ⟨kind.label, name⟩
        (candidateId (Entry.baseId digest ⟨kind.label, name⟩) n) := by
  rw [isForeign, isForeign, h.lookup_ofKind]

/-- Ids in use for other kinds do not matter. -/
theorem Proper.assign_ofKind_fst
    (h : Proper digest ids) :
    ((ids.ofKind kind).assign digest ⟨kind.label, name⟩).1 =
      (ids.assign digest ⟨kind.label, name⟩).1 :=
  assign_fst_congr fun n => h.isForeign_ofKind n

theorem Proper.ofKind_assign
    (h : Proper digest ids) :
    (ids.assign digest ⟨kind.label, name⟩).2.ofKind kind =
      ((ids.ofKind kind).assign digest ⟨kind.label, name⟩).2 := by
  obtain ⟨n, hid, -, -⟩ := exists_assign_fst digest ids ⟨kind.label, name⟩
  rw [assign_snd, assign_snd, h.assign_ofKind_fst, hid, h.lookup_ofKind]
  split <;> simp [ofKind]

/-- An id that is assigned to an entry of another kind does not matter. -/
theorem ofKind_assign_of_ne
    {other : Kind} (hne : other ≠ kind) (name : String) :
    (ids.assign digest ⟨other.label, name⟩).2.ofKind kind = ids.ofKind kind := by
  have hlabel : other.label ≠ kind.label := fun heq => hne (Kind.label_injective heq)
  rw [assign_snd]
  split
  · rfl
  · simp [ofKind, hlabel]

/-- The ids of a kind are issued as if there were no other kind. -/
theorem issue_ofKind
    (h : Proper digest ids) (kind : Kind) (rs : List Resource) :
    ((ids.issue digest (rs.map Resource.entry)).zip rs).filter (fun m => m.2.kind == kind) =
      ((ids.ofKind kind).issue digest
        ((rs.filter fun r => r.kind == kind).map Resource.entry)).zip
          (rs.filter fun r => r.kind == kind) := by
  induction rs generalizing ids with
  | nil => rfl
  | cons r rs ih =>
      have hrest := ih (h.assign r.kind r.name)
      rw [List.map_cons, issue, List.zip_cons_cons]
      by_cases hk : r.kind = kind
      · subst hk
        rw [List.filter_cons_of_pos (by simp), List.filter_cons_of_pos (by simp), List.map_cons,
          issue, List.zip_cons_cons, Resource.entry, h.assign_ofKind_fst, hrest, h.ofKind_assign]
      · rw [List.filter_cons_of_neg (by simp [hk]), List.filter_cons_of_neg (by simp [hk]),
          Resource.entry, hrest, ofKind_assign_of_ne hk]

end Kinds

section BaseIds

/-- Where the ids that are asked for first differ, they are the ones that are
issued. -/
theorem issue_eq_baseIds
    {es : List Entry}
    (hown : ∀ id e, (id, e) ∈ ids.inUse → id = e.baseId digest)
    (hapart : ∀ e ∈ ids.inUse.map Prod.snd ++ es, ∀ e' ∈ ids.inUse.map Prod.snd ++ es,
      e.baseId digest = e'.baseId digest → e = e') :
    ids.issue digest es = es.map (Entry.baseId digest) := by
  induction es generalizing ids with
  | nil => rfl
  | cons e es ih =>
      have hopen : ¬ ids.isForeign e (candidateId (e.baseId digest) 0) := by
        rw [isForeign_iff]
        rintro ⟨other, hother, hne⟩
        obtain ⟨before, after, hsplit, -⟩ := List.lookup_eq_some_iff.1 hother
        have hmem : (candidateId (e.baseId digest) 0, other) ∈ ids.inUse := by simp [hsplit]
        have hbase : e.baseId digest = other.baseId digest := hown _ _ hmem
        refine hne (hapart other ?_ e (by simp) hbase.symm)
        exact List.mem_append_left _ (List.mem_map_of_mem hmem)
      have hid : (ids.assign digest e).1 = e.baseId digest := by
        obtain ⟨n, hn, hbefore, -⟩ := exists_assign_fst digest ids e
        cases n with
        | zero => exact hn
        | succ n => exact absurd (hbefore 0 n.succ_pos) hopen
      -- What is in use behind the assignment is what was, with the entry or without it.
      have hnext :
          ∀ u ∈ (ids.assign digest e).2.inUse, u = (e.baseId digest, e) ∨ u ∈ ids.inUse := by
        intro u hu
        rw [assign_snd, hid] at hu
        split at hu
        · exact .inr hu
        · exact List.mem_cons.1 hu
      rw [issue, List.map_cons, hid, ih]
      · intro id e' hmem
        rcases hnext _ hmem with heq | hmem
        · cases heq
          rfl
        · exact hown id e' hmem
      · have hsub : ∀ x ∈ (ids.assign digest e).2.inUse.map Prod.snd ++ es,
            x ∈ ids.inUse.map Prod.snd ++ e :: es := by
          intro x hx
          rcases List.mem_append.1 hx with hx | hx
          · obtain ⟨u, hu, rfl⟩ := List.mem_map.1 hx
            rcases hnext u hu with rfl | hu
            · simp
            · exact List.mem_append_left _ (List.mem_map_of_mem hu)
          · simp [hx]
        exact fun x hx y hy => hapart x (hsub x hx) y (hsub y hy)

end BaseIds

section Runs

/-- What is in use stays in use. -/
theorem subset_assign
    (digest : String → String) (ids : EntryIds) (e : Entry) :
    ids.inUse ⊆ (ids.assign digest e).2.inUse := by
  rw [assign_snd]
  split
  · exact List.Subset.refl _
  · exact List.subset_cons_self _ _

/-- An id that is assigned is in use for its entry. -/
theorem mem_assign
    (digest : String → String) (ids : EntryIds) (e : Entry) :
    ((ids.assign digest e).1, e) ∈ (ids.assign digest e).2.inUse := by
  obtain ⟨n, hid, -, hopen⟩ := exists_assign_fst digest ids e
  rw [assign_snd]
  split
  · next owner howner =>
      have hsame : owner = e := by
        by_contra hne
        exact hopen (hid ▸ isForeign_iff.2 ⟨owner, howner, hne⟩)
      obtain ⟨before, rest, hsplit, -⟩ := List.lookup_eq_some_iff.1 howner
      rw [hsplit, hsame]
      exact List.mem_append_right _ List.mem_cons_self
  · exact List.mem_cons_self

theorem subset_after
    (digest : String → String) (ids : EntryIds) (es : List Entry) :
    ids.inUse ⊆ (ids.after digest es).inUse := by
  induction es generalizing ids with
  | nil => exact List.Subset.refl _
  | cons e es ih => exact List.Subset.trans (subset_assign digest ids e) (ih _)

theorem Settled.after
    (h : Settled digest ids) (es : List Entry) :
    Settled digest (ids.after digest es) := by
  induction es generalizing ids with
  | nil => exact h
  | cons e es ih => exact ih (settled_assign h e)

/-- Every id that was issued is in use for the entry that asked for it, however many
have asked since. -/
theorem mem_after_of_mem_zip
    {es : List Entry} {id : String} (h : (id, e) ∈ (ids.issue digest es).zip es) :
    (id, e) ∈ (ids.after digest es).inUse := by
  induction es generalizing ids with
  | nil => cases h
  | cons other es ih =>
      rw [issue, List.zip_cons_cons] at h
      rcases List.mem_cons.1 h with heq | hmem
      · cases heq
        exact subset_after digest _ es (mem_assign digest ids e)
      · exact ih hmem

/-- Of settled ids an id has one entry, and an entry has one id. -/
theorem Settled.id_eq_iff
    (h : Settled digest ids) {id id' : String} {e e' : Entry}
    (hmem : (id, e) ∈ ids.inUse) (hmem' : (id', e') ∈ ids.inUse) :
    id = id' ↔ e = e' := by
  constructor
  · rintro rfl
    have hown := (lookup_eq_some_iff_mem h.nodup).2 hmem
    have hown' := (lookup_eq_some_iff_mem h.nodup).2 hmem'
    exact Option.some.inj (hown.symm.trans hown')
  · rintro rfl
    exact congrArg Prod.fst ((assign_of_mem h hmem).symm.trans (assign_of_mem h hmem'))

/-- Of all ids that are issued, starting with none in use, two are the same just if they
were asked for with the same kind and the same name. -/
theorem issue_get_eq_iff
    (digest : String → String) (calls : List Entry) (i j : Fin calls.length) :
    (empty.issue digest calls).get (i.cast (length_issue digest empty calls).symm) =
        (empty.issue digest calls).get (j.cast (length_issue digest empty calls).symm) ↔
      (calls.get i).kind = (calls.get j).kind ∧ (calls.get i).name = (calls.get j).name := by
  have hsettled : Settled digest (empty.after digest calls) := settled_empty.after calls
  have hinUse : ∀ k : Fin calls.length,
      ((empty.issue digest calls).get (k.cast (length_issue digest empty calls).symm),
        calls.get k) ∈ (empty.after digest calls).inUse := by
    intro k
    refine mem_after_of_mem_zip (List.mem_iff_getElem.2 ⟨k, ?_, ?_⟩)
    · rw [List.length_zip, length_issue, Nat.min_self]
      exact k.isLt
    · rw [List.getElem_zip]
      rfl
  rw [hsettled.id_eq_iff (hinUse i) (hinUse j), Entry.mk.injEq]

/-- A number that keeps two names apart may be the end of a third. -/
example :
    empty.issue (fun _ => "")
        (["checkout", "Checkout", "checkout2", "Checkout"].map (.mk "Feature")) =
      ["FeatureCheckout", "FeatureCheckout2", "FeatureCheckout22", "FeatureCheckout2"] := by
  decide +kernel

end Runs

end EntryIds
end FlagStack
