import FlagStack.Proofs.SynthesisEquation

/-!
# Edits stay local

What becomes of a template when the config is edited.  A definition that is appended
to those of its kind gets an id of its own and leaves every other id as it is; the
only records that it changes are those that have referred to a project of its name.
A definition that is changed, but for its name, keeps its id, and no other record
changes.

Both rest on how ids are issued: an id depends on the names before it in its kind,
and on nothing else.

**Results.**
* `exists_issued_perm`: what stands under ids after a definition has been appended.
* `exists_issued_split`: what stands under ids after a definition has been changed.
* `edits_stay_local`: the stacks before and after an edit.
-/

namespace FlagStack
namespace Config

open Synthesis

/-- The config with a definition appended to those of its kind. -/
def append (c : Config) : Resource → Config
  | .project p => { c with projects := c.projects ++ [p] }
  | .feature f => { c with features := c.features ++ [f] }
  | .experiment e => { c with experiments := c.experiments ++ [e] }
  | .launch l => { c with launches := c.launches ++ [l] }

/-- The config `c'` is `c` with the definition `r'` in place of `r`, both of one kind
and name.  (A config is given by its definitions and what stands before them.) -/
structure Amended (c : Config) (r r' : Resource) (c' : Config) : Prop where
  stackName : c'.stackName = c.stackName
  account : c'.account = c.account
  region : c'.region = c.region
  kind : r'.kind = r.kind
  name : r'.name = r.name
  definitions : ∃ before after,
    c.definitions = before ++ r :: after ∧ c'.definitions = before ++ r' :: after

variable {digest : String → String} {options : Options} {c c' : Config} {r r' : Resource}
  {s s' : Stack}

section Appending

/-- The definitions of a kind, in order. -/
theorem filter_definitions
    (c : Config) (kind : Kind) :
    (c.definitions.filter fun r => r.kind == kind) =
      match kind with
      | .project => c.projects.map .project
      | .feature => c.features.map .feature
      | .experiment => c.experiments.map .experiment
      | .launch => c.launches.map .launch := by
  cases kind <;>
    simp [definitions, members, List.filter_append, List.filter_map, Function.comp_def,
      Resource.kind, beq_eq_decide]

theorem filter_definitions_append
    (c : Config) (r : Resource) (kind : Kind) :
    ((c.append r).definitions.filter fun x => x.kind == kind) =
      (c.definitions.filter fun x => x.kind == kind) ++ if r.kind = kind then [r] else [] := by
  rw [filter_definitions, filter_definitions]
  cases r <;> cases kind <;> simp [append, Resource.kind]

/-- What stands under ids of a kind depends on the definitions of this kind. -/
theorem filter_issued
    (digest : String → String) (c : Config) (kind : Kind) :
    ((c.issued digest).filter fun m => m.2.kind == kind) =
      (EntryIds.empty.issue digest
        ((c.definitions.filter fun r => r.kind == kind).map Resource.entry)).zip
          (c.definitions.filter fun r => r.kind == kind) :=
  EntryIds.issue_ofKind EntryIds.proper_empty kind c.definitions

/-- After a definition has been appended, it stands under an id, and the others
stand where they stood. -/
theorem exists_issued_perm
    (digest : String → String) (c : Config) (r : Resource) :
    ∃ id, ((c.append r).issued digest).Perm ((id, r) :: c.issued digest) := by
  -- The id is issued behind those of the other definitions of its kind.
  let same := c.definitions.filter fun x => x.kind == r.kind
  let ids := EntryIds.empty.after digest (same.map Resource.entry)
  refine ⟨(ids.assign digest r.entry).1, ?_⟩
  generalize hid : (ids.assign digest r.entry).1 = id
  have hkind : ∀ kind, ((c.append r).issued digest).filter (fun m => m.2.kind == kind) =
      (c.issued digest).filter (fun m => m.2.kind == kind) ++
        if r.kind = kind then [(id, r)] else [] := by
    intro kind
    rw [filter_issued, filter_issued, filter_definitions_append]
    by_cases h : r.kind = kind
    · subst h
      rw [if_pos rfl, if_pos rfl, List.map_append, EntryIds.issue_append,
        List.zip_append (by simp), ← hid]
      rfl
    · rw [if_neg h, if_neg h, List.append_nil, List.append_nil]
  refine List.perm_iff_count.2 fun m => ?_
  have hcount := congrArg (List.count m) (hkind m.2.kind)
  rw [List.count_filter (by simp), List.count_append, List.count_filter (by simp)] at hcount
  rw [hcount]
  by_cases h : r.kind = m.2.kind
  · rw [if_pos h]
    simp [List.count_cons]
  · have hne : (id, r) ≠ m := by
      rintro rfl
      exact h rfl
    rw [if_neg h, List.count_cons_of_ne hne, List.count_nil, Nat.add_zero]

/-- How a reference is resolved after a definition has been appended: a reference to
a project of its name that led out of the config now leads to it. -/
def linked (r : Resource) (id : String) : Token → Token
  | .literal name => if r.kind = .project ∧ name = r.name then .arnOf id else .literal name
  | t => t

theorem projectToken_append
    (h : Sound c.definitions) (h' : Sound (c.append r).definitions) {id : String}
    (hperm : ((c.append r).issued digest).Perm ((id, r) :: c.issued digest)) (t : Token) :
    (c.append r).projectToken (idIn ((c.append r).issued digest)) t =
      linked r id (c.projectToken (idIn (c.issued digest)) t) := by
  cases t with
  | «attribute» logicalId name => rfl
  | literal name =>
      by_cases hdefined : ∃ m ∈ c.issued digest, m.2.kind = .project ∧ m.2.name = name
      · obtain ⟨m, hm, hkind, rfl⟩ := hdefined
        have hm' := hperm.mem_iff.2 (List.mem_cons_of_mem (id, r) hm)
        rw [projectToken_of_issued h hm hkind, projectToken_of_issued h' hm' hkind]
        rfl
      · have hexternal : ∀ m ∈ c.issued digest, m.2.kind = .project → m.2.name ≠ name :=
          fun m hm hkind hname => hdefined ⟨m, hm, hkind, hname⟩
        rw [projectToken_of_not_issued hexternal, linked]
        by_cases hlinked : r.kind = .project ∧ name = r.name
        · obtain ⟨hkind, rfl⟩ := hlinked
          rw [if_pos ⟨hkind, rfl⟩]
          exact projectToken_of_issued (m := (id, r)) h' (hperm.mem_iff.2 List.mem_cons_self) hkind
        · rw [if_neg hlinked]
          refine projectToken_of_not_issued ?_
          intro m hm hkind hname
          rcases List.mem_cons.1 (hperm.mem_iff.1 hm) with rfl | hm
          · exact hlinked ⟨hkind, hname.symm⟩
          · exact hexternal m hm hkind hname

theorem mapProject_mapProject
    (f g : Token → Token) (r : Resource) :
    (r.mapProject f).mapProject g = r.mapProject (g ∘ f) := by
  cases r <;> rfl

theorem mapProject_congr
    {f g : Token → Token} (h : ∀ t, r.project? = some t → f t = g t) :
    r.mapProject f = r.mapProject g := by
  cases r with
  | project p => rfl
  | feature x => rw [Resource.mapProject, h _ rfl]; rfl
  | experiment x => rw [Resource.mapProject, h _ rfl]; rfl
  | launch x => rw [Resource.mapProject, h _ rfl]; rfl

/-- Only references by the name of the project that has been appended are resolved
anew. -/
theorem mapProject_linked_of_not
    {old : Resource} (h : ¬ (r.kind = .project ∧ old.project? = some (.literal r.name)))
    (id : String) :
    old.mapProject (linked r id) = old := by
  have hsame : old.mapProject (linked r id) = old.mapProject fun t => t := by
    refine mapProject_congr fun t ht => ?_
    cases t with
    | «attribute» logicalId name => rfl
    | literal name =>
        rw [linked, if_neg]
        rintro ⟨hkind, rfl⟩
        exact h ⟨hkind, ht⟩
  rw [hsame]
  cases old <;> rfl

theorem mapProject_linked
    {old : Resource} (hkind : r.kind = .project) (h : old.project? = some (.literal r.name))
    (id : String) :
    old.mapProject (linked r id) = old.mapProject fun _ => .arnOf id := by
  refine mapProject_congr fun t ht => ?_
  rw [h] at ht
  cases ht
  exact if_pos ⟨hkind, rfl⟩

section Tables

variable (hd : ∀ name, Alphanumeric (digest name))
  (hs : c.synthesizeWith digest options = .ok s)
  (hs' : (c.append r).synthesizeWith digest options = .ok s') {id : String}
  (hperm : ((c.append r).issued digest).Perm ((id, r) :: c.issued digest))
include hd hs hs' hperm

/-- The records after a definition has been appended. -/
theorem get?_resources_append
    (key : String) :
    s'.resources.get? key =
      if key = id then
        some (r.mapProject ((c.append r).projectToken (idIn ((c.append r).issued digest))))
      else (s.resources.get? key).map (Resource.mapProject (linked r id)) := by
  have hsound := (accepted_iff.1 (accepted_of_synthesizeWith hd hs)).2.2
  have hsound' := (accepted_iff.1 (accepted_of_synthesizeWith hd hs')).2.2
  have htoken : (c.append r).projectToken (idIn ((c.append r).issued digest)) =
      linked r id ∘ c.projectToken (idIn (c.issued digest)) :=
    funext fun t => projectToken_append hsound hsound' hperm t
  have hnew : ∀ x, (id, x) ∉ c.issued digest := by
    have hnodup := (hperm.map Prod.fst).nodup_iff.1 (nodup_issued hd hs')
    exact fun x hx => (List.nodup_cons.1 hnodup).1 (List.mem_map.2 ⟨_, hx, rfl⟩)
  refine Option.ext fun record => ?_
  rw [get?_resources_iff hd hs']
  simp only [hperm.mem_iff, List.mem_cons, Prod.mk.injEq]
  by_cases hkey : key = id
  · subst hkey
    rw [if_pos rfl, Option.some.injEq]
    constructor
    · rintro ⟨x, ⟨-, rfl⟩ | hx, rfl⟩
      · rfl
      · exact absurd hx (hnew x)
    · rintro rfl
      exact ⟨r, .inl ⟨rfl, rfl⟩, rfl⟩
  · rw [if_neg hkey, Option.map_eq_some_iff]
    constructor
    · rintro ⟨x, ⟨hid, -⟩ | hx, rfl⟩
      · exact absurd hid hkey
      · refine ⟨_, (get?_resources_iff hd hs).2 ⟨x, hx, rfl⟩, ?_⟩
        rw [mapProject_mapProject, htoken]
    · rintro ⟨old, hold, rfl⟩
      obtain ⟨x, hx, rfl⟩ := (get?_resources_iff hd hs).1 hold
      refine ⟨x, .inr hx, ?_⟩
      rw [mapProject_mapProject, htoken]

/-- The outputs after a definition has been appended. -/
theorem get?_outputs_append
    (key : String) :
    s'.outputs.get? key =
      if options.outputs ∧ key = id ++ "Arn" then some ⟨.arnOf id, none⟩
      else s.outputs.get? key := by
  refine Option.ext fun o => ?_
  rw [get?_outputs_iff hd hs']
  simp only [hperm.mem_iff, List.mem_cons, arnOutput, Prod.mk.injEq]
  by_cases hkey : options.outputs ∧ key = id ++ "Arn"
  · obtain ⟨houtputs, rfl⟩ := hkey
    rw [if_pos ⟨houtputs, rfl⟩, Option.some.injEq]
    constructor
    · rintro ⟨-, m, -, hid, rfl⟩
      rw [(String.append_left_inj "Arn").1 hid]
    · rintro rfl
      exact ⟨houtputs, (id, r), .inl rfl, rfl, rfl⟩
  · rw [if_neg hkey, get?_outputs_iff hd hs]
    refine and_congr_right fun houtputs => ?_
    constructor
    · rintro ⟨m, rfl | hm, hid, ho⟩
      · exact absurd ⟨houtputs, hid⟩ hkey
      · exact ⟨m, hm, Prod.ext hid ho⟩
    · rintro ⟨m, hm, heq⟩
      exact ⟨m, .inr hm, (Prod.mk.inj heq).1, (Prod.mk.inj heq).2⟩

end Tables

end Appending

section Amending

/-- After a definition has been changed, it stands where it stood, and so do the
others. -/
theorem Amended.exists_issued_split
    (h : c.Amended r r' c') (digest : String → String) :
    ∃ l₁ l₂ id, c.issued digest = l₁ ++ (id, r) :: l₂ ∧
      c'.issued digest = l₁ ++ (id, r') :: l₂ := by
  obtain ⟨before, after, hdefinitions, hdefinitions'⟩ := h.definitions
  have hentry : r'.entry = r.entry := Resource.entry_eq_iff.2 ⟨h.kind, h.name⟩
  let ids := EntryIds.empty.after digest (before.map Resource.entry)
  have hissued : ∀ x : Resource, x.entry = r.entry →
      (EntryIds.empty.issue digest ((before ++ x :: after).map Resource.entry)).zip
          (before ++ x :: after) =
        (EntryIds.empty.issue digest (before.map Resource.entry)).zip before ++
          ((ids.assign digest r.entry).1, x) ::
            ((ids.assign digest r.entry).2.issue digest (after.map Resource.entry)).zip after := by
    intro x hx
    rw [List.map_append, EntryIds.issue_append, List.zip_append (by simp), List.map_cons,
      EntryIds.issue, List.zip_cons_cons, hx]
  rw [issued, issued, hdefinitions, hdefinitions', hissued r rfl, hissued r' hentry]
  exact ⟨_, _, _, rfl, rfl⟩

section Tables

variable (hd : ∀ name, Alphanumeric (digest name))
  (hs : c.synthesizeWith digest options = .ok s)
  (hs' : c'.synthesizeWith digest options = .ok s')
  {l₁ l₂ : List (String × Resource)} {id : String}
  (hissued : c.issued digest = l₁ ++ (id, r) :: l₂)
  (hissued' : c'.issued digest = l₁ ++ (id, r') :: l₂)
include hd hs hs' hissued hissued'

/-- The records after a definition has been changed. -/
theorem get?_resources_amended
    (hentry : r'.entry = r.entry) {key : String} (hkey : key ≠ id) :
    s'.resources.get? key = s.resources.get? key := by
  have hsound := (accepted_iff.1 (accepted_of_synthesizeWith hd hs)).2.2
  have hsound' := (accepted_iff.1 (accepted_of_synthesizeWith hd hs')).2.2
  have hsame : ∀ id e, (∃ x, (id, x) ∈ c.issued digest ∧ x.entry = e) ↔
      ∃ x, (id, x) ∈ c'.issued digest ∧ x.entry = e := by
    intro id e
    simp only [hissued, hissued', List.mem_append, List.mem_cons, Prod.mk.injEq]
    constructor
    · rintro ⟨x, hx | ⟨rfl, rfl⟩ | hx, rfl⟩
      · exact ⟨x, .inl hx, rfl⟩
      · exact ⟨r', .inr (.inl ⟨rfl, rfl⟩), hentry⟩
      · exact ⟨x, .inr (.inr hx), rfl⟩
    · rintro ⟨x, hx | ⟨rfl, rfl⟩ | hx, rfl⟩
      · exact ⟨x, .inl hx, rfl⟩
      · exact ⟨r, .inr (.inl ⟨rfl, rfl⟩), hentry.symm⟩
      · exact ⟨x, .inr (.inr hx), rfl⟩
  refine Option.ext fun record => ?_
  rw [get?_resources_iff hd hs', get?_resources_iff hd hs,
    projectToken_congr hsound hsound' hsame, hissued, hissued']
  simp [hkey]

/-- The definition that has been changed stands where it stood. -/
theorem get?_resources_amended_self
    (hentry : r'.entry = r.entry) :
    (∃ record, s.resources.get? id = some record ∧ record.entry = r.entry) ∧
      ∃ record, s'.resources.get? id = some record ∧ record.entry = r.entry := by
  constructor
  · refine ⟨_, (get?_resources_iff hd hs).2 ⟨r, ?_, rfl⟩, ?_⟩
    · simp [hissued]
    · simp [Resource.entry]
  · refine ⟨_, (get?_resources_iff hd hs').2 ⟨r', ?_, rfl⟩, ?_⟩
    · simp [hissued']
    · rw [← hentry]
      simp [Resource.entry]

/-- Outputs do not show what has been changed. -/
theorem get?_outputs_amended
    (key : String) :
    s'.outputs.get? key = s.outputs.get? key := by
  have hids : (c'.issued digest).map Prod.fst = (c.issued digest).map Prod.fst := by
    simp [hissued, hissued']
  have hexists : ∀ (l : List (String × Resource)) (o : Output),
      (∃ m ∈ l, (key, o) = arnOutput m.1) ↔ ∃ id ∈ l.map Prod.fst, (key, o) = arnOutput id := by
    simp
  refine Option.ext fun o => ?_
  rw [get?_outputs_iff hd hs', get?_outputs_iff hd hs, hexists, hexists, hids]

end Tables

end Amending

/-- Edits of a config stay local in its stack.

When a definition has been appended, one record stands under a new id.  All others
stand where they stood and are what they were, but that references to a project of
its name are resolved, if it is a project.  There is one output more if there are
outputs at all, and the others are what they were.

When a definition has been changed but for its name, the same ids are in use, and
only the record under its own id may differ. -/
theorem edits_stay_local
    (hs : c.synthesize options = .ok s) :
    (∀ r s', (c.append r).synthesize options = .ok s' →
      ∃ id record,
        s.resources.get? id = none ∧
        s'.resources.get? id = some record ∧ record.kind = r.kind ∧ record.name = r.name ∧
        s'.size = s.size + 1 ∧
        (∀ key old, s.resources.get? key = some old →
          ¬ (r.kind = .project ∧ old.project? = some (.literal r.name)) →
            s'.resources.get? key = some old) ∧
        (∀ key old, s.resources.get? key = some old →
          r.kind = .project ∧ old.project? = some (.literal r.name) →
            s'.resources.get? key = some (old.mapProject fun _ => .arnOf id)) ∧
        s'.outputs.size = s.outputs.size + (if options.outputs then 1 else 0) ∧
        (∀ key o, s.outputs.get? key = some o → s'.outputs.get? key = some o) ∧
        (options.outputs → s'.outputs.get? (id ++ "Arn") = some ⟨.arnOf id, none⟩)) ∧
    ∀ r r' c' s', c.Amended r r' c' → c'.synthesize options = .ok s' →
      (∀ key, s'.resources.contains key = s.resources.contains key) ∧
      (∀ key, s'.outputs.get? key = s.outputs.get? key) ∧
      ∃ id,
        (∃ record, s.resources.get? id = some record ∧
          record.kind = r.kind ∧ record.name = r.name) ∧
        ∀ key, key ≠ id → s'.resources.get? key = s.resources.get? key := by
  have hd := alphanumeric_ofText
  obtain ⟨_, hplaced⟩ := exists_placed hd hs
  constructor
  · intro r s' hs'
    obtain ⟨_, hplaced'⟩ := exists_placed hd hs'
    have hlength : (c.append r).definitions.length = c.definitions.length + 1 := by
      cases r <;> simp [length_definitions, append] <;> omega
    obtain ⟨id, hperm⟩ := exists_issued_perm Digest.ofText c r
    have hresources := get?_resources_append hd hs hs' hperm
    have houtputs := get?_outputs_append hd hs hs' hperm
    have hnew : id ∉ (c.issued Digest.ofText).map Prod.fst := by
      have hnodup := (hperm.map Prod.fst).nodup_iff.1 (nodup_issued hd hs')
      exact (List.nodup_cons.1 hnodup).1
    have hnone : ∀ old, s.resources.get? id ≠ some old := by
      intro old hold
      obtain ⟨x, hx, -⟩ := (get?_resources_iff hd hs).1 hold
      exact hnew (List.mem_map.2 ⟨_, hx, rfl⟩)
    have hkept : ∀ key old, s.resources.get? key = some old →
        s'.resources.get? key = some (old.mapProject (linked r id)) := by
      intro key old hold
      have hkey : key ≠ id := by
        rintro rfl
        exact hnone old hold
      rw [hresources, if_neg hkey, hold, Option.map_some]
    let record := r.mapProject ((c.append r).projectToken (idIn ((c.append r).issued Digest.ofText)))
    have hrecord : s'.resources.get? id = some record := by
      rw [hresources, if_pos rfl]
    refine ⟨id, record, Option.eq_none_iff_forall_ne_some.2 hnone, hrecord,
      Resource.kind_mapProject _ r, Resource.name_mapProject _ r, ?_, ?_, ?_, ?_, ?_, ?_⟩
    · rw [hplaced'.size, hplaced.size, hlength]
    · intro key old hold hother
      rw [hkept key old hold, mapProject_linked_of_not hother]
    · rintro key old hold ⟨hkind, hproject⟩
      rw [hkept key old hold, mapProject_linked hkind hproject]
    · rw [size_outputs hd hs', size_outputs hd hs, hlength]
      split <;> rfl
    · intro key o ho
      have hkey : ¬ (options.outputs ∧ key = id ++ "Arn") := by
        rintro ⟨-, rfl⟩
        obtain ⟨-, m, hm, heq⟩ := (get?_outputs_iff hd hs).1 ho
        have hid : id = m.1 := (String.append_left_inj "Arn").1 (Prod.mk.inj heq).1
        exact hnew (hid ▸ List.mem_map_of_mem hm)
      rw [houtputs, if_neg hkey, ho]
    · intro hoptions
      rw [houtputs, if_pos ⟨hoptions, rfl⟩]
  · intro r r' c' s' hamended hs'
    have hentry : r'.entry = r.entry := Resource.entry_eq_iff.2 ⟨hamended.kind, hamended.name⟩
    obtain ⟨l₁, l₂, id, hissued, hissued'⟩ := hamended.exists_issued_split Digest.ofText
    have hothers := fun key (hkey : key ≠ id) =>
      get?_resources_amended hd hs hs' hissued hissued' hentry hkey
    obtain ⟨⟨record, hrecord, howner⟩, record', hrecord', -⟩ :=
      get?_resources_amended_self hd hs hs' hissued hissued' hentry
    refine ⟨?_, get?_outputs_amended hd hs hs' hissued hissued', id, ?_, hothers⟩
    · intro key
      by_cases hkey : key = id
      · subst hkey
        rw [Table.contains, Table.contains, hrecord, hrecord']
        rfl
      · rw [Table.contains, Table.contains, hothers key hkey]
    · exact ⟨record, hrecord, Resource.entry_eq_iff.1 howner⟩

/-- Two launches of a project that the config does not define. -/
def waiting : Config where
  stackName := "s"
  account := none
  region := none
  projects := []
  features := []
  experiments := []
  launches :=
    [⟨"a", .literal "shop", [], [], none, none, Table.empty⟩,
      ⟨"A", .literal "shop", [], [], none, none, Table.empty⟩]

/-- The project they wait for. -/
def shop : Resource :=
  .project ⟨"shop", none, none, Table.empty⟩

theorem waiting_linked :
    ∃ s s', waiting.synthesize ⟨false, true⟩ = .ok s ∧
      (waiting.append shop).synthesize ⟨false, true⟩ = .ok s' ∧
      s'.size = s.size + 1 ∧
      ∃ id, ∀ key old, s.resources.get? key = some old →
        shop.kind = .project ∧ old.project? = some (.literal shop.name) →
          s'.resources.get? key = some (old.mapProject fun _ => .arnOf id) := by
  have haccepted : waiting.Accepted false := by
    constructor
    · exact ⟨by decide, by decide⟩
    all_goals decide
  have haccepted' : (waiting.append shop).Accepted false := by
    constructor
    · exact ⟨by decide, by decide⟩
    all_goals decide
  obtain ⟨s, hs⟩ := haccepted.exists_stack ⟨false, true⟩
  obtain ⟨s', hs'⟩ := haccepted'.exists_stack ⟨false, true⟩
  obtain ⟨id, -, -, -, -, -, hsize, -, hlinked, -⟩ := (edits_stay_local hs).1 shop s' hs'
  exact ⟨s, s', hs, hs', hsize, id, hlinked⟩

end Config
end FlagStack
