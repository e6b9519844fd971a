import FlagStack.Proofs.SynthesisRun

/-!
# What synthesis has reached

The state of synthesis is described by the list of what has been made: ids, each
with the definition that stands under it, in order.  Ids in use, resources,
outputs and known projects are all read off this list.

Only two things are used of ids: they are kept apart, and they can stand as keys
as they are.

**Results.**
* `add_of_new`, `add_of_repeated`, `add_of_refused`: what one definition does.
* `foldlM_add`: either all definitions are made, or the error is that of the first
  one that offends.
-/

namespace FlagStack
namespace Synthesis

/-- The output that exposes the resource name of a resource. -/
def arnOutput (id : String) : String × Output :=
  (id ++ "Arn", ⟨.arnOf id, none⟩)

/-- Ids that differ make outputs under keys that differ. -/
theorem nodup_arnOutputs
    {made : List (String × Resource)} (h : (made.map Prod.fst).Nodup) :
    ((made.map fun m => arnOutput m.1).map Prod.fst).Nodup := by
  have hmap : (made.map fun m => arnOutput m.1).map Prod.fst =
      (made.map Prod.fst).map (· ++ "Arn") := by
    simp [arnOutput]
  rw [hmap]
  exact h.map fun a b hab => (String.append_left_inj "Arn").1 hab

/-- A stack with what has been made in it. -/
def filled (options : Options) (resolution : Token → Token) (base : Stack)
    (made : List (String × Resource)) : Stack :=
  { base with
    resources := Table.ofList (made.map fun m => (m.1, m.2.mapProject resolution))
    outputs :=
      if options.outputs then Table.ofList (made.map fun m => arnOutput m.1) else Table.empty }

/-- What has been made is all that a state shows. -/
structure Reached (digest : String → String) (options : Options)
    (resolution : Token → Token) (base : Stack)
    (made : List (String × Resource)) (st : State) : Prop where
  settled : st.ids.Settled digest
  inUse : st.ids.inUse = (made.map fun m => (m.1, m.2.entry)).reverse
  logical : ∀ m ∈ made, IsLogicalId m.1
  stack : st.stack = filled options resolution base made
  projects : st.projects = (made.flatMap fun m => knownBy m.1 m.2).reverse
  sound : Sound (made.map Prod.snd)

theorem reverse_knownBy
    (key : String) (r : Resource) :
    (knownBy key r).reverse = knownBy key r := by
  cases r <;> rfl

namespace Reached

variable {digest : String → String} {options : Options} {resolution : Token → Token}
  {base : Stack} {made : List (String × Resource)} {st : State}

theorem keys_eq
    (h : Reached digest options resolution base made st) :
    st.ids.inUse.map Prod.fst = (made.map Prod.fst).reverse := by
  rw [h.inUse, List.map_reverse, List.map_map]
  rfl

theorem owners_eq
    (h : Reached digest options resolution base made st) :
    st.ids.inUse.map Prod.snd = (made.map fun m => m.2.entry).reverse := by
  rw [h.inUse, List.map_reverse, List.map_map]
  rfl

/-- No id stands for two definitions. -/
theorem nodup_ids
    (h : Reached digest options resolution base made st) :
    (made.map Prod.fst).Nodup := by
  have hnodup := h.settled.nodup
  rwa [h.keys_eq, List.nodup_reverse] at hnodup

theorem nodup_resources
    (h : Reached digest options resolution base made st) :
    ((made.map fun m => (m.1, m.2.mapProject resolution)).map Prod.fst).Nodup := by
  rw [List.map_map]
  exact h.nodup_ids

theorem nodup_outputs
    (h : Reached digest options resolution base made st) :
    ((made.map fun m => arnOutput m.1).map Prod.fst).Nodup :=
  nodup_arnOutputs h.nodup_ids

theorem mem_inUse
    (h : Reached digest options resolution base made st) {m : String × Resource}
    (hm : m ∈ made) :
    (m.1, m.2.entry) ∈ st.ids.inUse := by
  rw [h.inUse, List.mem_reverse]
  exact List.mem_map_of_mem hm

theorem initial
    (hresources : base.resources = Table.empty) (houtputs : base.outputs = Table.empty) :
    Reached digest options resolution base [] ⟨base, .empty, []⟩ where
  settled := EntryIds.settled_empty
  inUse := rfl
  logical := fun m hm => (by cases hm)
  stack := by
    simp [filled, ← hresources, ← houtputs]
  projects := rfl
  sound := sound_nil

/-- An id that is not in use is not taken in the stack. -/
theorem not_contains_resources
    (h : Reached digest options resolution base made st) {id : String}
    (hid : id ∉ made.map Prod.fst) :
    ¬ st.stack.resources.contains id := by
  rw [h.stack]
  simp only [filled]
  rw [Table.contains_ofList h.nodup_resources, List.map_map]
  exact hid

theorem not_contains_outputs
    (h : Reached digest options resolution base made st) (houtputs : options.outputs)
    {id : String} (hid : id ∉ made.map Prod.fst) :
    ¬ st.stack.outputs.contains (id ++ "Arn") := by
  rw [h.stack]
  simp only [filled, if_pos houtputs]
  rw [Table.contains_ofList h.nodup_outputs, List.map_map]
  intro hmem
  obtain ⟨m, hm, heq⟩ := List.mem_map.1 hmem
  exact hid (List.mem_map.2 ⟨m, hm, (String.append_left_inj "Arn").1 heq⟩)

theorem contains_resources
    (h : Reached digest options resolution base made st) {m : String × Resource}
    (hm : m ∈ made) :
    st.stack.resources.contains m.1 := by
  rw [h.stack]
  simp only [filled]
  rw [Table.contains_ofList h.nodup_resources, List.map_map]
  exact List.mem_map.2 ⟨m, hm, rfl⟩

/-- What is made under a new id is the last that has been made. -/
theorem filled_append_singleton
    (options : Options) (resolution : Token → Token) (base : Stack)
    (made : List (String × Resource)) (id : String) (r : Resource) :
    filled options resolution base (made ++ [(id, r)]) =
      { filled options resolution base made with
        resources := (filled options resolution base made).resources.put id
          (r.mapProject resolution)
        outputs :=
          if options.outputs then
            (filled options resolution base made).outputs.put (id ++ "Arn") ⟨.arnOf id, none⟩
          else (filled options resolution base made).outputs } := by
  simp only [filled, List.map_append, List.map_cons, List.map_nil,
    Table.ofList_append_singleton, arnOutput]
  split <;> rfl

theorem exposeArn_of_free
    (st : State) {id : String} (hid : IsLogicalId id)
    (hfree : options.outputs → ¬ st.stack.outputs.contains (id ++ "Arn")) :
    st.exposeArn options id (.arnOf id) =
      .ok { st with
        stack :=
          { st.stack with
            outputs :=
              if options.outputs then st.stack.outputs.put (id ++ "Arn") ⟨.arnOf id, none⟩
              else st.stack.outputs } } := by
  have hlogical : IsLogicalId (id ++ "Arn") := isLogicalId_append hid alphanumeric_arn
  rw [State.exposeArn]
  by_cases houtputs : options.outputs
  · rw [if_pos houtputs, if_pos houtputs, State.act_eq,
      Stack.on_expose_of_free hlogical (hfree houtputs)]
    rfl
  · rw [if_neg houtputs, if_neg houtputs]
    rfl

theorem assign_mapProject
    (st : State) (r : Resource) :
    st.assign digest (r.mapProject resolution).kind (r.mapProject resolution).name =
      ((st.ids.assign digest r.entry).1,
        { st with ids := (st.ids.assign digest r.entry).2 }) := by
  rw [Resource.kind_mapProject, Resource.name_mapProject]
  rfl

/-- The state after a definition has been made under an id. -/
def afterMaking (options : Options) (resolution : Token → Token) (base : Stack)
    (made : List (String × Resource)) (st : State) (id : String) (r : Resource) : State where
  stack := filled options resolution base (made ++ [(id, r)])
  ids := ⟨(id, r.entry) :: st.ids.inUse⟩
  projects := knownBy id r ++ st.projects

theorem reached_afterMaking
    (h : Reached digest options resolution base made st) {r : Resource} (hr : r.Admissible)
    (hnew : ∀ m ∈ made, m.2.entry ≠ r.entry) {id : String} (hlogical : IsLogicalId id)
    (hsettled : EntryIds.Settled digest ⟨(id, r.entry) :: st.ids.inUse⟩) :
    Reached digest options resolution base (made ++ [(id, r)])
      (afterMaking options resolution base made st id r) := by
  have hdistinct : ∀ other ∈ made.map Prod.snd, other.entry ≠ r.entry :=
    List.forall_mem_map.2 hnew
  constructor
  case settled => exact hsettled
  case inUse => simp [afterMaking, h.inUse]
  case logical =>
    intro m hm
    rcases List.mem_append.1 hm with hm | hm
    · exact h.logical m hm
    · rw [List.mem_singleton.1 hm]
      exact hlogical
  case stack => rfl
  case projects => simp [afterMaking, h.projects, reverse_knownBy]
  case sound =>
    rw [List.map_append]
    exact sound_append_singleton_iff.2 ⟨h.sound, hr, hdistinct⟩

/-- A definition that is admissible and new is made, under the id that its entry is
assigned. -/
theorem add_of_new
    (h : Reached digest options resolution base made st)
    (hd : ∀ name, Alphanumeric (digest name)) {r : Resource} (hr : r.Admissible)
    (hnew : ∀ m ∈ made, m.2.entry ≠ r.entry) {id : String}
    (hid : id = (st.ids.assign digest r.entry).1) :
    id ∉ made.map Prod.fst ∧
      st.add digest options resolution r =
        .ok (afterMaking options resolution base made st id r) ∧
      Reached digest options resolution base (made ++ [(id, r)])
        (afterMaking options resolution base made st id r) := by
  have howner : r.entry ∉ st.ids.inUse.map Prod.snd := by
    rw [h.owners_eq, List.mem_reverse, List.mem_map]
    rintro ⟨m, hm, heq⟩
    exact hnew m hm heq
  obtain ⟨n, hassign, hfree, -⟩ := EntryIds.assign_of_not_mem digest st.ids howner
  have hlogical : IsLogicalId (candidateId (r.entry.baseId digest) n) :=
    isLogicalId_candidateId hd r.kind r.name n
  have hsettled := EntryIds.settled_assign h.settled r.entry
  rw [hassign] at hsettled hid
  simp only at hid
  rw [← hid] at hassign hfree hlogical hsettled
  have hunused : id ∉ made.map Prod.fst := by
    rwa [h.keys_eq, List.mem_reverse] at hfree
  refine ⟨hunused, ?_, h.reached_afterMaking hr hnew hlogical hsettled⟩
  have hcreate := Stack.on_create_of_admissible
    ((r.admissible_mapProject resolution).2 hr) id st.stack
  rw [Stack.on_register_of_free hlogical (h.not_contains_resources hunused)] at hcreate
  simp only [State.add, State.make, assign_mapProject, hassign, State.act_eq, hcreate, ok_bind]
  rw [exposeArn_of_free _ hlogical]
  · simp only [ok_bind, afterMaking, filled_append_singleton, ← h.stack]
    rfl
  · exact fun houtputs => h.not_contains_outputs houtputs hunused

/-- A definition with the kind and name of one that has been made is refused with
the id of that one. -/
theorem add_of_repeated
    (h : Reached digest options resolution base made st)
    {r : Resource} (hr : r.Admissible) {m : String × Resource} (hm : m ∈ made)
    (hentry : m.2.entry = r.entry) :
    st.add digest options resolution r = .error (.duplicateId m.1) := by
  have hassign := EntryIds.assign_of_mem h.settled (h.mem_inUse hm)
  rw [hentry] at hassign
  have hcreate := Stack.on_create_of_admissible
    ((r.admissible_mapProject resolution).2 hr) m.1 st.stack
  rw [Stack.on_register_of_taken (h.logical m hm) (h.contains_resources hm)] at hcreate
  simp only [State.add, State.make, assign_mapProject, hassign, State.act_eq, hcreate, error_bind]

/-- A definition that is refused for itself is refused first of all for that. -/
theorem add_of_refused
    {r : Resource} {e : Error} (hr : r.check = .error e) :
    st.add digest options resolution r = .error e := by
  simp only [State.add, State.make, State.act_eq, Stack.on_create, Resource.check_mapProject, hr,
    error_bind]

/-- Either all definitions are made, or the error is that of the first one that
offends. -/
theorem foldlM_add
    (h : Reached digest options resolution base made st)
    (hd : ∀ name, Alphanumeric (digest name)) (rs : List Resource) :
    (∃ made' last,
      rs.foldlM (State.add digest options resolution) st = .ok last ∧
      Reached digest options resolution base made' last ∧
      made'.map Prod.snd = made.map Prod.snd ++ rs) ∨
    ∃ e before r rest,
      rs.foldlM (State.add digest options resolution) st = .error e ∧
      rs = before ++ r :: rest ∧ Sound (made.map Prod.snd ++ before) ∧
      Offends (made.map Prod.snd ++ before) r e.kind := by
  induction rs generalizing made st with
  | nil => exact .inl ⟨made, st, rfl, h, by simp⟩
  | cons r rs ih =>
      rw [List.foldlM_cons]
      by_cases hr : r.Admissible
      · by_cases hnew : ∀ m ∈ made, m.2.entry ≠ r.entry
        · obtain ⟨-, hadd, hnext⟩ := h.add_of_new hd hr hnew rfl
          rw [hadd, ok_bind]
          rcases ih hnext with ⟨made', last, hrun, hlast, hmade⟩ |
              ⟨e, before, r', rest, hrun, hsplit, hsound, hoffends⟩
          · exact .inl ⟨made', last, hrun, hlast, by simpa using hmade⟩
          · refine .inr ⟨e, r :: before, r', rest, hrun, by rw [hsplit]; rfl, ?_, ?_⟩
            · simpa using hsound
            · simpa using hoffends
        · obtain ⟨m, hm, hentry⟩ : ∃ m ∈ made, m.2.entry = r.entry := by simpa using hnew
          obtain ⟨hkind, hname⟩ := Resource.entry_eq_iff.1 hentry
          refine .inr ⟨.duplicateId m.1, [], r, rs, ?_, rfl, by simpa using h.sound, ?_⟩
          · rw [h.add_of_repeated hr hm hentry]
            rfl
          · exact .repeated hr (by simpa using ⟨m.1, hm⟩) hkind hname
      · obtain ⟨e, hcheck, hkind⟩ := Resource.exists_check_eq_error hr
        refine .inr ⟨e, [], r, rs, ?_, rfl, by simpa using h.sound, ?_⟩
        · rw [add_of_refused hcheck]
          rfl
        · rw [hkind]
          exact .refused hr

end Reached

section Outcome

variable {digest : String → String} {c : Config} {options : Options}

theorem resources_emptyStack
    (c : Config) :
    (emptyStack c).resources = Table.empty := by
  rw [emptyStack]
  split <;> rfl

theorem outputs_emptyStack
    (c : Config) :
    (emptyStack c).outputs = Table.empty := by
  rw [emptyStack]
  split <;> rfl

theorem synthesizeWith_of_fault
    {fault : Config.Fault} (h : c.check = .error fault) :
    c.synthesizeWith digest options = .error (.config fault) := by
  rw [Config.synthesizeWith, h]
  rfl

theorem synthesizeWith_of_dangling
    (hcheck : c.check = .ok ()) (hstrict : options.strict) (h : c.dangling ≠ []) :
    c.synthesizeWith digest options = .error (.dangling c.dangling) := by
  rw [Config.synthesizeWith, hcheck, Config.tolerated, if_pos (by simp [hstrict, h])]
  rfl

/-- What synthesis of a config gives that passes its checks: the stack with all of
its definitions made, or the error of the first that offends. -/
theorem synthesizeWith_of_checked
    (hd : ∀ name, Alphanumeric (digest name)) (hcheck : c.check = .ok ())
    (htolerated : options.strict → c.dangling = []) :
    (∃ made last,
      c.synthesizeWith digest options = .ok last.stack ∧
      Reached digest options last.resolve (emptyStack c) made last ∧
      made.map Prod.snd = c.definitions) ∨
    ∃ e, c.synthesizeWith digest options = .error e ∧
      FirstOffence c.definitions e.kind := by
  obtain ⟨resolution, hloops, hresolution⟩ :=
    foldlM_definitions digest options c ⟨emptyStack c, .empty, []⟩
  have htol : c.tolerated options.strict = .ok c.dangling := by
    rw [Config.tolerated]
    refine if_neg ?_
    simpa using htolerated
  have hsynth : c.synthesizeWith digest options =
      c.definitions.foldlM (State.add digest options resolution) ⟨emptyStack c, .empty, []⟩ >>=
        fun last => .ok last.stack := by
    rw [← hloops, Config.synthesizeWith, hcheck, htol]
    simp only [bind_assoc]
    rfl
  have hstart : Reached digest options resolution (emptyStack c) []
      ⟨emptyStack c, .empty, []⟩ :=
    Reached.initial (resources_emptyStack c) (outputs_emptyStack c)
  rcases hstart.foldlM_add hd c.definitions with
      ⟨made, last, hrun, hlast, hmade⟩ | ⟨e, before, r, rest, hrun, hsplit, hsound, hoffends⟩
  · refine .inl ⟨made, last, ?_, ?_, hmade⟩
    · rw [hsynth, hrun]
      rfl
    · rwa [hresolution last hrun]
  · refine .inr ⟨e, ?_, before, r, rest, hsplit, hsound, hoffends⟩
    rw [hsynth, hrun]
    rfl

end Outcome
end Synthesis
end FlagStack
