import FlagStack.Proofs.SynthesisVerdict

/-!
# Where definitions stand after synthesis

When synthesis has succeeded, every definition of the config stands under an id of
its own, its reference to a project resolved, and nothing else stands there.

**Results.**
* `resolve_of_project`, `resolve_of_external`: how references are resolved.
* `exists_placed`: the definitions of a config are placed in the stack.
-/

namespace FlagStack

namespace Config

/-- What a reference to a project becomes when definitions stand under ids. -/
def projectToken (c : Config) (idOf : Resource → String) : Token → Token
  | .literal name =>
      match c.projects.find? fun p => p.name == name with
      | some p => .arnOf (idOf (.project p))
      | none => .literal name
  | t => t

/-- The definitions of a config stand in a stack, each under an id of its own. -/
structure Placed (c : Config) (s : Stack) (idOf : Resource → String) : Prop where
  distinct : (c.definitions.map idOf).Nodup
  logical : ∀ r ∈ c.definitions, IsLogicalId (idOf r)
  /-- A record is a definition with its reference to a project resolved, and there
  is no other record. -/
  records : ∀ id record, s.resources.get? id = some record ↔
    ∃ r ∈ c.definitions, idOf r = id ∧ record = r.mapProject (c.projectToken idOf)
  size : s.size = c.definitions.length
  /-- Outputs give the resource names of definitions. -/
  outputs : ∀ key o, s.outputs.get? key = some o →
    ∃ r ∈ c.definitions, key = idOf r ++ "Arn" ∧ o.value = .arnOf (idOf r)

section References

variable {c : Config} {idOf : Resource → String} {name : String}

theorem projectToken_of_mem
    (hnames : (c.projects.map Project.name).Nodup) {p : Project} (hp : p ∈ c.projects) :
    c.projectToken idOf (.literal p.name) = .arnOf (idOf (.project p)) := by
  have hfind := (find?_key_eq_some_iff hnames).2 ⟨hp, rfl⟩
  rw [projectToken, hfind]

theorem projectToken_of_external
    (h : ∀ p ∈ c.projects, p.name ≠ name) :
    c.projectToken idOf (.literal name) = .literal name := by
  have hfind : (c.projects.find? fun p => p.name == name) = none :=
    List.find?_eq_none.2 fun p hp => by simpa using h p hp
  rw [projectToken, hfind]

end References
end Config

namespace Synthesis

variable {digest : String → String} {options : Options} {resolution : Token → Token}
  {base : Stack} {made : List (String × Resource)} {st : State}

/-- The id under which a definition has been made. -/
def idIn (made : List (String × Resource)) (r : Resource) : String :=
  ((made.find? fun m => m.2 == r).map Prod.fst).getD ""

namespace Reached

/-- Of definitions with the same kind and name one has been made. -/
theorem eq_of_entry_eq
    (h : Reached digest options resolution base made st) {m m' : String × Resource}
    (hm : m ∈ made) (hm' : m' ∈ made) (hentry : m.2.entry = m'.2.entry) :
    m = m' := by
  have hdistinct := h.sound.distinct
  rw [List.map_map] at hdistinct
  exact List.inj_on_of_nodup_map hdistinct hm hm' hentry

theorem mem_projects_iff
    (h : Reached digest options resolution base made st) {name : String}
    {handle : ProjectHandle} :
    (name, handle) ∈ st.projects ↔
      ∃ id p, (id, .project p) ∈ made ∧ p.name = name ∧ handle = ⟨p.name, .arnOf id, some id⟩ := by
  rw [h.projects, List.mem_reverse, List.mem_flatMap]
  constructor
  · rintro ⟨⟨id, r⟩, hm, hknown⟩
    cases r with
    | project p =>
        rw [knownBy, List.mem_singleton] at hknown
        cases hknown
        exact ⟨id, p, hm, rfl, rfl⟩
    | feature f => cases hknown
    | experiment e => cases hknown
    | launch l => cases hknown
  · rintro ⟨id, p, hm, rfl, rfl⟩
    exact ⟨(id, .project p), hm, List.mem_singleton.2 rfl⟩

/-- A reference to a project that has been made becomes its resource name. -/
theorem resolve_of_project
    (h : Reached digest options resolution base made st) {id : String} {p : Project}
    (hm : (id, .project p) ∈ made) :
    st.resolve (.literal p.name) = .arnOf id := by
  cases hlookup : st.projects.lookup p.name with
  | none =>
      rw [lookup_eq_none_iff_not_mem] at hlookup
      have hmem := h.mem_projects_iff.2 ⟨id, p, hm, rfl, rfl⟩
      exact absurd (List.mem_map_of_mem hmem) hlookup
  | some handle =>
      obtain ⟨before, after, hsplit, -⟩ := List.lookup_eq_some_iff.1 hlookup
      have hmem : (p.name, handle) ∈ st.projects := by simp [hsplit]
      obtain ⟨id', p', hm', hname, rfl⟩ := h.mem_projects_iff.1 hmem
      have heq := h.eq_of_entry_eq hm' hm (Resource.entry_eq_iff.2 ⟨rfl, hname⟩)
      cases heq
      simp only [State.resolve, Token.literal?, Option.bind_some, hlookup]

/-- A reference to nothing that has been made stays as it is. -/
theorem resolve_of_external
    (h : Reached digest options resolution base made st) {name : String}
    (hexternal : ∀ id p, (id, .project p) ∈ made → p.name ≠ name) :
    st.resolve (.literal name) = .literal name := by
  have hlookup : st.projects.lookup name = none := by
    rw [lookup_eq_none_iff_not_mem]
    intro hmem
    obtain ⟨⟨_, handle⟩, hentry, rfl⟩ := List.mem_map.1 hmem
    obtain ⟨id, p, hm, hname, -⟩ := h.mem_projects_iff.1 hentry
    exact hexternal id p hm hname
  simp only [State.resolve, Token.literal?, Option.bind_some, hlookup]

theorem get?_resources_eq_some_iff
    (h : Reached digest options resolution base made st) {id : String} {record : Resource} :
    st.stack.resources.get? id = some record ↔
      ∃ r, (id, r) ∈ made ∧ record = r.mapProject resolution := by
  rw [h.stack]
  simp only [filled]
  rw [Table.get?_ofList_eq_some_iff h.nodup_resources, List.mem_map]
  constructor
  · rintro ⟨⟨id', r⟩, hm, heq⟩
    cases heq
    exact ⟨r, hm, rfl⟩
  · rintro ⟨r, hm, rfl⟩
    exact ⟨(id, r), hm, rfl⟩

theorem exists_of_get?_outputs
    (h : Reached digest options resolution base made st) {key : String} {o : Output}
    (ho : st.stack.outputs.get? key = some o) :
    ∃ m ∈ made, key = m.1 ++ "Arn" ∧ o.value = .arnOf m.1 := by
  rw [h.stack] at ho
  simp only [filled] at ho
  split at ho
  · rw [Table.get?_ofList_eq_some_iff h.nodup_outputs, List.mem_map] at ho
    obtain ⟨m, hm, heq⟩ := ho
    cases heq
    exact ⟨m, hm, rfl, rfl⟩
  · cases ho

theorem size_eq
    (h : Reached digest options resolution base made st) :
    st.stack.size = made.length := by
  rw [h.stack, Stack.size]
  simp only [filled]
  rw [Table.size_ofList h.nodup_resources, List.length_map]

/-- A definition that has been made has one id. -/
theorem idIn_eq
    (h : Reached digest options resolution base made st) {m : String × Resource}
    (hm : m ∈ made) :
    idIn made m.2 = m.1 := by
  have hdistinct : (made.map Prod.snd).Nodup := h.sound.distinct.of_map
  have hfind := (find?_key_eq_some_iff hdistinct).2 ⟨hm, rfl⟩
  rw [idIn, hfind]
  rfl

end Reached

variable {c : Config}

/-- References are resolved by the ids of the projects of the config. -/
theorem Reached.resolve_eq_projectToken
    (h : Reached digest options resolution base made st)
    (hmade : made.map Prod.snd = c.definitions) :
    st.resolve = c.projectToken (idIn made) := by
  have hnames := (c.nodup_entries_definitions_iff.1 (hmade ▸ h.sound.distinct)).1
  have hprojects : ∀ p, p ∈ c.projects ↔ ∃ id, (id, .project p) ∈ made := by
    intro p
    have hmem : Resource.project p ∈ c.definitions ↔ p ∈ c.projects :=
      Config.mem_definitions_iff
    rw [← hmem, ← hmade, List.mem_map]
    constructor
    · rintro ⟨⟨id, r⟩, hm, rfl⟩
      exact ⟨id, hm⟩
    · rintro ⟨id, hm⟩
      exact ⟨_, hm, rfl⟩
  funext t
  cases t with
  | literal name =>
      by_cases hdefined : ∃ p ∈ c.projects, p.name = name
      · obtain ⟨p, hp, rfl⟩ := hdefined
        obtain ⟨id, hm⟩ := (hprojects p).1 hp
        rw [h.resolve_of_project hm, c.projectToken_of_mem hnames hp, h.idIn_eq hm]
      · have hexternal : ∀ p ∈ c.projects, p.name ≠ name := by simpa using hdefined
        rw [c.projectToken_of_external hexternal, h.resolve_of_external]
        intro id p hm
        exact hexternal p ((hprojects p).2 ⟨id, hm⟩)
  | «attribute» logicalId name => rfl

/-- When all definitions of a config have been made, they are placed under the ids
that they have got. -/
theorem Reached.placed
    (h : Reached digest options st.resolve base made st)
    (hmade : made.map Prod.snd = c.definitions) :
    c.Placed st.stack (idIn made) := by
  have hmem : ∀ r, r ∈ c.definitions ↔ (idIn made r, r) ∈ made := by
    intro r
    rw [← hmade, List.mem_map]
    constructor
    · rintro ⟨m, hm, rfl⟩
      rw [h.idIn_eq hm]
      exact hm
    · intro hm
      exact ⟨_, hm, rfl⟩
  constructor
  case distinct =>
    have hids : c.definitions.map (idIn made) = made.map Prod.fst := by
      rw [← hmade, List.map_map]
      exact List.map_congr_left fun m hm => h.idIn_eq hm
    rw [hids]
    exact h.nodup_ids
  case logical =>
    intro r hr
    exact h.logical _ ((hmem r).1 hr)
  case records =>
    intro id record
    rw [h.get?_resources_eq_some_iff, ← h.resolve_eq_projectToken hmade]
    constructor
    · rintro ⟨r, hm, rfl⟩
      have hid : idIn made r = id := h.idIn_eq hm
      exact ⟨r, (hmem r).2 (hid ▸ hm), hid, rfl⟩
    · rintro ⟨r, hr, rfl, rfl⟩
      exact ⟨r, (hmem r).1 hr, rfl⟩
  case size =>
    rw [h.size_eq, ← hmade, List.length_map]
  case outputs =>
    intro key o ho
    obtain ⟨m, hm, hkey, hvalue⟩ := h.exists_of_get?_outputs ho
    have hid := h.idIn_eq hm
    refine ⟨m.2, (hmem m.2).2 ?_, by rw [hid, hkey], by rw [hid, hvalue]⟩
    rw [hid]
    exact hm

/-- When synthesis has succeeded, the definitions of the config are placed in the
stack. -/
theorem exists_placed
    (hd : ∀ name, Alphanumeric (digest name)) {s : Stack}
    (hrun : c.synthesizeWith digest options = .ok s) :
    ∃ idOf, c.Placed s idOf := by
  obtain ⟨hvalid, htolerated, -⟩ :=
    Config.accepted_iff.1 (Config.accepted_of_synthesizeWith hd hrun)
  have hcheck := Config.check_eq_ok_iff.2 hvalid
  rcases synthesizeWith_of_checked hd hcheck htolerated with
      ⟨made, last, hlast, h, hmade⟩ | ⟨e, he, -⟩
  · rw [hrun] at hlast
    cases hlast
    exact ⟨idIn made, h.placed hmade⟩
  · rw [hrun] at he
    cases he

end Synthesis
end FlagStack
