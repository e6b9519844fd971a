import FlagStack.Proofs.IssuedIds

/-!
# Issued ids as keys

Ids are made of names by one filter, and keys of ids by another.  What the first makes
the second leaves alone: an id that is issued has letters and digits only, whatever the
name has, and so has the id of its output.

An id shows its kind: it begins with the label of the kind that it was issued for, and
with no other label.

**Results.**
* `standsFor_candidateId`: every id that an entry may get stands as a key for its kind.
* `StandsFor.ne`: ids of different kinds differ.
* `issued_stand_as_keys`: all ids that are issued stand as keys.
-/

namespace FlagStack

/-- An id begins with the label of its kind and with no other, and it is a key of
resources as it is, as it is a key of outputs with `Arn` behind it. -/
structure StandsFor (kind : Kind) (id : String) : Prop where
  nonempty : id ≠ ""
  alphanumeric : Alphanumeric id
  begins : ∀ k : Kind, k.label.toList <+: id.toList ↔ k = kind
  filtered : logicalIdOf id = .ok id
  filteredArn : logicalIdOf (id ++ "Arn") = .ok (id ++ "Arn")
  /-- A resource is registered under the id, if there is none under it. -/
  registers : ∀ (r : Resource) (s : Stack),
    (Stack.register id r).on s =
      if s.resources.contains id then (.error (.duplicateId id), s)
      else (.ok id, { s with resources := s.resources.put id r })
  /-- An output is added under the id with `Arn` behind it, if there is none under it. -/
  exposes : ∀ (o : Output) (s : Stack),
    (Stack.expose (id ++ "Arn") o).on s =
      if s.outputs.contains (id ++ "Arn") then (.error (.duplicateId (id ++ "Arn")), s)
      else (.ok (), { s with outputs := s.outputs.put (id ++ "Arn") o })

section Keys

variable {id : String}

/-- A logical id that begins with the label of a kind stands for that kind. -/
theorem IsLogicalId.standsFor
    {kind : Kind} (h : IsLogicalId id) (hbegins : kind.label.toList <+: id.toList) :
    StandsFor kind id := by
  have harn : IsLogicalId (id ++ "Arn") := isLogicalId_append h alphanumeric_arn
  constructor
  case nonempty => exact h.1
  case alphanumeric => exact h.2
  case begins =>
    intro k
    constructor
    · exact fun hk => Kind.eq_of_isPrefix hk hbegins
    · rintro rfl
      exact hbegins
  case filtered => exact logicalIdOf_of_isLogicalId h
  case filteredArn => exact logicalIdOf_of_isLogicalId harn
  case registers => exact Stack.on_register_of_isLogicalId h
  case exposes => exact Stack.on_expose_of_isLogicalId harn

/-- Ids of different kinds differ. -/
theorem StandsFor.ne
    {kind kind' : Kind} {id' : String} (h : StandsFor kind id) (h' : StandsFor kind' id')
    (hne : kind ≠ kind') :
    id ≠ id' := by
  rintro rfl
  exact hne ((h'.begins kind).1 ((h.begins kind).2 rfl))

end Keys

section Issued

variable {digest : String → String}

/-- Every id that an entry may get stands for its kind. -/
theorem standsFor_candidateId
    (hd : ∀ name, Alphanumeric (digest name)) (kind : Kind) (name : String) (tried : Nat) :
    StandsFor kind (candidateId (Entry.baseId digest ⟨kind.label, name⟩) tried) :=
  (isLogicalId_candidateId hd kind name tried).standsFor
    (label_isPrefix_candidateId digest kind name tried)

namespace EntryIds

/-- Every id that is issued is a candidate of the entry that asked for it. -/
theorem exists_candidate_of_mem_zip
    {ids : EntryIds} {es : List Entry} {m : String × Entry}
    (h : m ∈ (ids.issue digest es).zip es) :
    ∃ n, m.1 = candidateId (m.2.baseId digest) n := by
  induction es generalizing ids with
  | nil => cases h
  | cons e es ih =>
      rw [issue, List.zip_cons_cons] at h
      rcases List.mem_cons.1 h with rfl | hmem
      · obtain ⟨n, hid, -, -⟩ := exists_assign_fst digest ids e
        exact ⟨n, hid⟩
      · exact ih hmem

/-- The entry that asks for an id, by its kind and name. -/
def asking (call : Kind × String) : Entry :=
  ⟨call.1.label, call.2⟩

/-- Whatever entries of the four kinds ask, each gets an id that stands for its kind as
a key, and no id of one kind is an id of another. -/
theorem issued_stand_as_keys
    (hd : ∀ name, Alphanumeric (digest name)) (calls : List (Kind × String)) :
    let issued := (empty.issue digest (calls.map asking)).zip calls
    issued.length = calls.length ∧
      (∀ m ∈ issued, StandsFor m.2.1 m.1) ∧
      ∀ m ∈ issued, ∀ m' ∈ issued, m.2.1 ≠ m'.2.1 → m.1 ≠ m'.1 := by
  intro issued
  have hstands : ∀ m ∈ issued, StandsFor m.2.1 m.1 := by
    rintro ⟨id, kind, name⟩ hm
    have hmem : (id, asking (kind, name)) ∈
        (empty.issue digest (calls.map asking)).zip (calls.map asking) := by
      rw [List.zip_map_right]
      exact List.mem_map.2 ⟨_, hm, rfl⟩
    obtain ⟨n, hid⟩ := exists_candidate_of_mem_zip hmem
    rw [show id = _ from hid]
    exact standsFor_candidateId hd kind name n
  refine ⟨?_, hstands, fun m hm m' hm' hne => (hstands m hm).ne (hstands m' hm') hne⟩
  rw [List.length_zip, length_issue, List.length_map, Nat.min_self]

/-- A name with a character that no id can hold, a name that is the label of another
kind, and no name at all. -/
def hardCalls : List (Kind × String) :=
  [(.feature, "caf\u00e9"), (.project, "Launch"), (.launch, "Launch"), (.experiment, "")]

theorem hardCalls_stand :
    (∀ name, Alphanumeric (Digest.ofText name)) ∧
      (empty.issue Digest.ofText (hardCalls.map asking)).zip hardCalls =
        ["FeatureCaf850f7dc4", "ProjectLaunch", "LaunchLaunch", "Experimente3b0c442"].zip
          hardCalls ∧
      StandsFor .feature "FeatureCaf850f7dc4" ∧ StandsFor .launch "LaunchLaunch" ∧
      "ProjectLaunch" ≠ "LaunchLaunch" := by
  have hissued : (empty.issue Digest.ofText (hardCalls.map asking)).zip hardCalls =
      ["FeatureCaf850f7dc4", "ProjectLaunch", "LaunchLaunch", "Experimente3b0c442"].zip
        hardCalls := by
    decide +kernel
  obtain ⟨-, hstands, hapart⟩ := issued_stand_as_keys alphanumeric_ofText hardCalls
  simp only [hissued] at hstands hapart
  refine ⟨alphanumeric_ofText, hissued, ?_, ?_, ?_⟩
  · exact hstands ("FeatureCaf850f7dc4", .feature, "caf\u00e9") (by decide)
  · exact hstands ("LaunchLaunch", .launch, "Launch") (by decide)
  · exact hapart ("ProjectLaunch", .project, "Launch") (by decide)
      ("LaunchLaunch", .launch, "Launch") (by decide) (by decide)

end EntryIds
end Issued
end FlagStack
