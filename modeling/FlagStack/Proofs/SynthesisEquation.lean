import FlagStack.Proofs.IssuedIds
import FlagStack.Proofs.SynthesizedRecords

/-!
# Synthesis in two steps

Synthesis does two things.  It puts every definition of a config that passes its
checks under an id, or refuses the first one that cannot have its id; and it fills a
stack with what stands under ids.  The first looks neither at the option on outputs
nor at the stack; the second cannot fail.

What two runs of synthesis have in common is therefore read off their definitions,
without following the loops again.

**Results.**
* `enlisted_eq_zip`: the ids are those that the entries are issued.
* `synthesizeWith_eq`: synthesis as these two steps.
* `arranged_eq_issued`: what the first step gives.
* `synthesizeWith_eq_ok_iff`: when synthesis succeeds, and with which stack.
* `error_or_filled`: the verdict does not depend on the option on outputs.
* `get?_resources_iff`, `get?_outputs_iff`: what the stack then holds.
-/

namespace FlagStack
namespace Synthesis

/-- The ids in use when definitions stand under ids. -/
def idsOf (made : List (String × Resource)) : EntryIds :=
  ⟨(made.map fun m => (m.1, m.2.entry)).reverse⟩

/-- Puts one more definition under the id of its entry. -/
def enlist (digest : String → String) (made : List (String × Resource)) (r : Resource) :
    Except Error (List (String × Resource)) := do
  r.check
  let id := ((idsOf made).assign digest r.entry).1
  if id ∈ made.map Prod.fst then throw (.duplicateId id) else return made ++ [(id, r)]

/-- The state that shows what has been made, and nothing else. -/
def stateOf (options : Options) (resolution : Token → Token) (base : Stack)
    (made : List (String × Resource)) : State where
  stack := filled options resolution base made
  ids := idsOf made
  projects := (made.flatMap fun m => knownBy m.1 m.2).reverse

variable {digest : String → String} {options : Options} {resolution : Token → Token}
  {base : Stack} {made made' : List (String × Resource)} {st : State}

section Enlisting

theorem enlist_of_refused
    {r : Resource} {e : Error} (h : r.check = .error e) :
    enlist digest made r = .error e := by
  rw [enlist, h]
  rfl

theorem enlist_of_admissible
    {r : Resource} (h : r.Admissible) {id : String}
    (hid : id = ((idsOf made).assign digest r.entry).1) :
    enlist digest made r =
      if id ∈ made.map Prod.fst then .error (.duplicateId id) else .ok (made ++ [(id, r)]) := by
  rw [enlist, r.check_eq_ok_iff.2 h, ok_bind, ← hid]
  rfl

theorem enlist_eq_ok_iff
    {r : Resource} :
    enlist digest made r = .ok made' ↔
      r.Admissible ∧ ((idsOf made).assign digest r.entry).1 ∉ made.map Prod.fst ∧
        made' = made ++ [(((idsOf made).assign digest r.entry).1, r)] := by
  by_cases hr : r.Admissible
  · rw [enlist_of_admissible hr rfl]
    split
    · next hmem => simp [hmem]
    · next hmem =>
        simp only [hr, hmem, not_false_iff, true_and, Except.ok.injEq]
        exact eq_comm
  · obtain ⟨e, hcheck, -⟩ := Resource.exists_check_eq_error hr
    rw [enlist_of_refused hcheck]
    simp [hr]

/-- The ids in use behind a definition are those that the assignment leaves. -/
theorem idsOf_append_singleton
    {r : Resource} {id : String} (hid : id = ((idsOf made).assign digest r.entry).1)
    (hfree : id ∉ made.map Prod.fst) :
    idsOf (made ++ [(id, r)]) = ((idsOf made).assign digest r.entry).2 := by
  have hkeys : (idsOf made).inUse.map Prod.fst = (made.map Prod.fst).reverse := by
    simp [idsOf, Function.comp_def]
  have hlookup : (idsOf made).inUse.lookup id = none := by
    rw [lookup_eq_none_iff_not_mem, hkeys, List.mem_reverse]
    exact hfree
  rw [EntryIds.assign_snd, ← hid, hlookup]
  simp [idsOf]

/-- Definitions that have been put under ids stand there in order, under the ids
that their entries are issued. -/
theorem enlisted_eq_zip
    {rs : List Resource} (h : rs.foldlM (enlist digest) made = .ok made') :
    made' = made ++ ((idsOf made).issue digest (rs.map Resource.entry)).zip rs := by
  induction rs generalizing made with
  | nil =>
      cases h
      simp
  | cons r rs ih =>
      rw [List.foldlM_cons] at h
      obtain ⟨next, hnext, hrest⟩ := bind_eq_ok_iff.1 h
      obtain ⟨-, hfree, rfl⟩ := enlist_eq_ok_iff.1 hnext
      rw [ih hrest, idsOf_append_singleton rfl hfree, List.map_cons, EntryIds.issue,
        List.zip_cons_cons, List.append_assoc, List.singleton_append]

theorem nodup_enlisted
    {rs : List Resource} (h : rs.foldlM (enlist digest) made = .ok made')
    (hnodup : (made.map Prod.fst).Nodup) :
    (made'.map Prod.fst).Nodup := by
  refine foldlM_invariant (fun made => (made.map Prod.fst).Nodup) ?_ hnodup h
  intro made hmade r _ next hnext
  obtain ⟨-, hfree, rfl⟩ := enlist_eq_ok_iff.1 hnext
  rw [List.map_append, List.nodup_append]
  refine ⟨hmade, by simp, ?_⟩
  intro a ha b hb hab
  rw [List.map_singleton, List.mem_singleton] at hb
  exact hfree (hb ▸ hab ▸ ha)

end Enlisting

namespace Reached

theorem eq_stateOf
    (h : Reached digest options resolution base made st) :
    st = stateOf options resolution base made := by
  obtain ⟨stack, ⟨inUse⟩, projects⟩ := st
  have hstack : stack = filled options resolution base made := h.stack
  have hids : inUse = (made.map fun m => (m.1, m.2.entry)).reverse := h.inUse
  have hprojects : projects = (made.flatMap fun m => knownBy m.1 m.2).reverse := h.projects
  rw [hstack, hids, hprojects]
  rfl

/-- To add a definition is to put it under an id. -/
theorem add_eq
    (h : Reached digest options resolution base made st)
    (hd : ∀ name, Alphanumeric (digest name)) (r : Resource) :
    st.add digest options resolution r =
        (enlist digest made r).map (stateOf options resolution base) ∧
      ∀ made', enlist digest made r = .ok made' →
        Reached digest options resolution base made' (stateOf options resolution base made') := by
  have hids : st.ids = idsOf made := by
    rw [h.eq_stateOf]
    rfl
  by_cases hr : r.Admissible
  · by_cases hnew : ∀ m ∈ made, m.2.entry ≠ r.entry
    · obtain ⟨hfree, hadd, hnext⟩ := h.add_of_new hd hr hnew rfl
      rw [hids] at hfree hadd hnext
      rw [hnext.eq_stateOf] at hadd hnext
      rw [enlist_of_admissible hr rfl, if_neg hfree]
      refine ⟨hadd, ?_⟩
      intro made' hmade'
      cases hmade'
      exact hnext
    · obtain ⟨m, hm, hentry⟩ : ∃ m ∈ made, m.2.entry = r.entry := by simpa using hnew
      have hassign := EntryIds.assign_of_mem h.settled (h.mem_inUse hm)
      rw [hentry, hids] at hassign
      have hid : m.1 = ((idsOf made).assign digest r.entry).1 := by rw [hassign]
      rw [h.add_of_repeated hr hm hentry, enlist_of_admissible hr hid,
        if_pos (List.mem_map_of_mem hm)]
      exact ⟨rfl, nofun⟩
  · obtain ⟨e, hcheck, -⟩ := Resource.exists_check_eq_error hr
    rw [add_of_refused hcheck, enlist_of_refused hcheck]
    exact ⟨rfl, nofun⟩

/-- To add definitions is to put them under ids. -/
theorem foldlM_add_eq
    (h : Reached digest options resolution base made st)
    (hd : ∀ name, Alphanumeric (digest name)) (rs : List Resource) :
    rs.foldlM (State.add digest options resolution) st =
        (rs.foldlM (enlist digest) made).map (stateOf options resolution base) ∧
      ∀ made', rs.foldlM (enlist digest) made = .ok made' →
        Reached digest options resolution base made' (stateOf options resolution base made') := by
  induction rs generalizing made st with
  | nil =>
      refine ⟨congrArg Except.ok h.eq_stateOf, ?_⟩
      intro made' hmade'
      cases hmade'
      exact h.eq_stateOf ▸ h
  | cons r rs ih =>
      obtain ⟨hadd, hnext⟩ := h.add_eq hd r
      rw [List.foldlM_cons, List.foldlM_cons, hadd]
      cases henlist : enlist digest made r with
      | error e => exact ⟨rfl, nofun⟩
      | ok next => exact ih (hnext next henlist)

end Reached
end Synthesis

namespace Config

open Synthesis

variable {digest : String → String} {options : Options} {c : Config}

/-- The definitions of a config under their ids, or why one of them cannot have its
id. -/
def enlisted (digest : String → String) (c : Config) : Except Error (List (String × Resource)) :=
  c.definitions.foldlM (enlist digest) []

/-- The definitions of a config that passes its checks, under their ids. -/
def arranged (digest : String → String) (c : Config) (strict : Bool) :
    Except Error (List (String × Resource)) := do
  c.check.mapError .config
  let _ ← c.tolerated strict
  c.enlisted digest

/-- The ids of the definitions of a config, each with the definition. -/
def issued (digest : String → String) (c : Config) : List (String × Resource) :=
  (EntryIds.empty.issue digest (c.definitions.map Resource.entry)).zip c.definitions

theorem map_snd_issued
    (digest : String → String) (c : Config) :
    (c.issued digest).map Prod.snd = c.definitions := by
  rw [issued, List.map_snd_zip]
  simp

theorem enlisted_eq_issued
    {made : List (String × Resource)} (h : c.enlisted digest = .ok made) :
    made = c.issued digest :=
  enlisted_eq_zip h

/-- What passes the checks stands under the ids that are issued, and these differ. -/
theorem arranged_eq_issued
    {strict : Bool} {made : List (String × Resource)} (h : c.arranged digest strict = .ok made) :
    made = c.issued digest ∧ (made.map Prod.fst).Nodup := by
  obtain ⟨-, -, h⟩ := bind_eq_ok_iff.1 h
  obtain ⟨-, -, h⟩ := bind_eq_ok_iff.1 h
  exact ⟨enlisted_eq_issued h, nodup_enlisted h List.nodup_nil⟩

/-- Synthesis puts the definitions under ids, and then fills a stack with them.  The option
on outputs and the environment matter for the second step only. -/
theorem synthesizeWith_eq
    (hd : ∀ name, Alphanumeric (digest name)) (c : Config) (options : Options) :
    c.synthesizeWith digest options =
      (c.arranged digest options.strict).map fun made =>
        filled options (c.projectToken (idIn made)) (emptyStack c) made := by
  obtain ⟨resolution, hloops, hresolution⟩ :=
    foldlM_definitions digest options c ⟨emptyStack c, .empty, []⟩
  have hstart : Reached digest options resolution (emptyStack c) []
      ⟨emptyStack c, .empty, []⟩ :=
    Reached.initial (resources_emptyStack c) (outputs_emptyStack c)
  obtain ⟨hrun, hreached⟩ := hstart.foldlM_add_eq hd c.definitions
  have hloops' : (c.definitions.foldlM (State.add digest options resolution)
        ⟨emptyStack c, .empty, []⟩ >>= fun last => .ok last.stack) =
      (c.enlisted digest).map fun made =>
        filled options (c.projectToken (idIn made)) (emptyStack c) made := by
    rw [enlisted]
    cases henlisted : c.definitions.foldlM (enlist digest) [] with
    | error e =>
        rw [hrun, henlisted]
        rfl
    | ok made =>
        rw [henlisted] at hrun
        have hmade : made.map Prod.snd = c.definitions := by
          rw [enlisted_eq_issued henlisted, map_snd_issued]
        have htoken := (hreached made henlisted).resolve_eq_projectToken hmade
        rw [hresolution _ hrun] at htoken
        rw [hrun]
        exact congrArg (fun resolved => Except.ok (filled options resolved (emptyStack c) made))
          htoken
  rw [← hloops] at hloops'
  simp only [bind_assoc] at hloops'
  rw [synthesizeWith, arranged]
  cases c.check.mapError Error.config with
  | error e => rfl
  | ok u =>
      cases c.tolerated options.strict with
      | error e => rfl
      | ok references => exact hloops'

/-- What synthesis gives is filled with the definitions under their ids. -/
theorem exists_arranged
    (hd : ∀ name, Alphanumeric (digest name)) {s : Stack}
    (hs : c.synthesizeWith digest options = .ok s) :
    ∃ made, c.arranged digest options.strict = .ok made ∧
      s = filled options (c.projectToken (idIn made)) (emptyStack c) made := by
  rw [c.synthesizeWith_eq hd, map_eq_ok_iff] at hs
  obtain ⟨made, hmade, rfl⟩ := hs
  exact ⟨made, hmade, rfl⟩

/-- Synthesis succeeds where the config passes its checks and its definitions get
ids, and gives the stack that is filled with them. -/
theorem synthesizeWith_eq_ok_iff
    (hd : ∀ name, Alphanumeric (digest name)) {s : Stack} :
    c.synthesizeWith digest options = .ok s ↔
      c.Accepted options.strict ∧
        s = filled options (c.projectToken (idIn (c.issued digest))) (emptyStack c)
          (c.issued digest) := by
  have hfilled : ∀ s, c.synthesizeWith digest options = .ok s →
      s = filled options (c.projectToken (idIn (c.issued digest))) (emptyStack c)
        (c.issued digest) := by
    intro s hs
    obtain ⟨made, hmade, rfl⟩ := exists_arranged hd hs
    rw [(arranged_eq_issued hmade).1]
  constructor
  · intro hs
    exact ⟨accepted_of_synthesizeWith hd hs, hfilled s hs⟩
  · rintro ⟨haccepted, rfl⟩
    rcases exists_stack_or_error hd c options with ⟨-, s, hs⟩ | ⟨e, -, hfault⟩
    · rw [← hfilled s hs]
      exact hs
    · exact absurd haccepted hfault.not_accepted

/-- What synthesis accepts has a stack. -/
theorem Accepted.exists_stack
    (options : Options) (h : c.Accepted options.strict) :
    ∃ s, c.synthesize options = .ok s :=
  ⟨_, (synthesizeWith_eq_ok_iff alphanumeric_ofText).2 ⟨h, rfl⟩⟩

/-- The ids of a config that synthesis accepts differ. -/
theorem nodup_issued
    (hd : ∀ name, Alphanumeric (digest name)) {s : Stack}
    (hs : c.synthesizeWith digest options = .ok s) :
    ((c.issued digest).map Prod.fst).Nodup := by
  obtain ⟨made, hmade, -⟩ := exists_arranged hd hs
  obtain ⟨rfl, hnodup⟩ := arranged_eq_issued hmade
  exact hnodup

/-- Outputs play no part in the verdict: synthesis fails with the same error under both
options on outputs, or under both it fills a stack with the same definitions under the
same ids. -/
theorem error_or_filled
    (hd : ∀ name, Alphanumeric (digest name)) (c : Config) (strict : Bool) :
    (∃ e, ∀ outputs, c.synthesizeWith digest ⟨strict, outputs⟩ = .error e) ∨
      ∃ made resolution, (made.map Prod.fst).Nodup ∧
        ∀ outputs, c.synthesizeWith digest ⟨strict, outputs⟩ =
          .ok (filled ⟨strict, outputs⟩ resolution (emptyStack c) made) := by
  simp only [c.synthesizeWith_eq hd]
  cases hmade : c.arranged digest strict with
  | error e => exact .inl ⟨e, fun _ => rfl⟩
  | ok made =>
      exact .inr ⟨made, c.projectToken (idIn made), (arranged_eq_issued hmade).2, fun _ => rfl⟩

section Filled

variable {s : Stack}

/-- The record under an id is the definition that was issued it, its reference to a
project resolved. -/
theorem get?_resources_iff
    (hd : ∀ name, Alphanumeric (digest name)) (hs : c.synthesizeWith digest options = .ok s)
    {key : String} {record : Resource} :
    s.resources.get? key = some record ↔
      ∃ r, (key, r) ∈ c.issued digest ∧
        record = r.mapProject (c.projectToken (idIn (c.issued digest))) := by
  have hnodup := nodup_issued hd hs
  obtain ⟨-, rfl⟩ := (synthesizeWith_eq_ok_iff hd).1 hs
  simp only [filled]
  rw [Table.get?_ofList_eq_some_iff (by rw [List.map_map]; exact hnodup), List.mem_map]
  constructor
  · rintro ⟨⟨id, r⟩, hm, heq⟩
    cases heq
    exact ⟨r, hm, rfl⟩
  · rintro ⟨r, hm, rfl⟩
    exact ⟨(key, r), hm, rfl⟩

/-- Outputs are given where they are asked for, one for each id. -/
theorem get?_outputs_iff
    (hd : ∀ name, Alphanumeric (digest name)) (hs : c.synthesizeWith digest options = .ok s)
    {key : String} {o : Output} :
    s.outputs.get? key = some o ↔
      options.outputs ∧ ∃ m ∈ c.issued digest, (key, o) = arnOutput m.1 := by
  have hnodup := nodup_issued hd hs
  obtain ⟨-, rfl⟩ := (synthesizeWith_eq_ok_iff hd).1 hs
  by_cases houtputs : options.outputs
  · simp only [filled, if_pos houtputs]
    rw [Table.get?_ofList_eq_some_iff (nodup_arnOutputs hnodup), List.mem_map]
    simp only [houtputs, true_and, eq_comm]
  · simp [filled, houtputs]

theorem size_outputs
    (hd : ∀ name, Alphanumeric (digest name)) (hs : c.synthesizeWith digest options = .ok s) :
    s.outputs.size = if options.outputs then c.definitions.length else 0 := by
  have hnodup := nodup_issued hd hs
  obtain ⟨-, rfl⟩ := (synthesizeWith_eq_ok_iff hd).1 hs
  by_cases houtputs : options.outputs
  · simp only [filled, if_pos houtputs]
    rw [Table.size_ofList (nodup_arnOutputs hnodup), List.length_map, ← map_snd_issued digest c,
      List.length_map]
  · simp only [filled, if_neg houtputs]
    rfl

/-- Where the definitions of a config differ, a definition has the id that it was
issued. -/
theorem idIn_issued
    (h : Sound c.definitions) {m : String × Resource} (hm : m ∈ c.issued digest) :
    idIn (c.issued digest) m.2 = m.1 := by
  have hdistinct : ((c.issued digest).map Prod.snd).Nodup := by
    rw [map_snd_issued]
    exact h.distinct.of_map
  have hfind := (find?_key_eq_some_iff hdistinct).2 ⟨hm, rfl⟩
  rw [idIn, hfind]
  rfl

theorem exists_issued
    {r : Resource} (hr : r ∈ c.definitions) :
    ∃ id, (id, r) ∈ c.issued digest := by
  rw [← map_snd_issued digest c, List.mem_map] at hr
  obtain ⟨⟨id, r⟩, hm, rfl⟩ := hr
  exact ⟨id, hm⟩

theorem mem_definitions_of_issued
    {m : String × Resource} (hm : m ∈ c.issued digest) :
    m.2 ∈ c.definitions := by
  rw [← map_snd_issued digest c]
  exact List.mem_map_of_mem hm

/-- A reference to a project of the config becomes the resource name that goes with
the id of the project. -/
theorem projectToken_of_issued
    (h : Sound c.definitions) {m : String × Resource} (hm : m ∈ c.issued digest)
    (hkind : m.2.kind = .project) :
    c.projectToken (idIn (c.issued digest)) (.literal m.2.name) = .arnOf m.1 := by
  obtain ⟨id, r⟩ := m
  cases r with
  | project p =>
      have hp : p ∈ c.projects := mem_definitions_iff.1 (mem_definitions_of_issued hm)
      have hnames := (c.nodup_entries_definitions_iff.1 h.distinct).1
      have hid := idIn_issued h hm
      rw [Resource.name, projectToken_of_mem hnames hp, hid]
  | feature f => cases hkind
  | experiment e => cases hkind
  | launch l => cases hkind

/-- A reference to anything else stays as it is. -/
theorem projectToken_of_not_issued
    {name : String} (h : ∀ m ∈ c.issued digest, m.2.kind = .project → m.2.name ≠ name) :
    c.projectToken (idIn (c.issued digest)) (.literal name) = .literal name := by
  refine projectToken_of_external fun p hp => ?_
  have hr : Resource.project p ∈ c.definitions := mem_definitions_iff.2 hp
  obtain ⟨id, hm⟩ : ∃ id, (id, Resource.project p) ∈ c.issued digest := exists_issued hr
  exact h _ hm rfl

/-- References are resolved alike where the same entries stand under the same ids. -/
theorem projectToken_congr
    {c' : Config} (h : Sound c.definitions) (h' : Sound c'.definitions)
    (hsame : ∀ id e, (∃ x, (id, x) ∈ c.issued digest ∧ x.entry = e) ↔
      ∃ x, (id, x) ∈ c'.issued digest ∧ x.entry = e) :
    c'.projectToken (idIn (c'.issued digest)) = c.projectToken (idIn (c.issued digest)) := by
  funext t
  cases t with
  | «attribute» logicalId name => rfl
  | literal name =>
      by_cases hdefined : ∃ m ∈ c.issued digest, m.2.kind = .project ∧ m.2.name = name
      · obtain ⟨⟨id, x⟩, hm, hkind, rfl⟩ := hdefined
        obtain ⟨x', hm', hentry⟩ := (hsame id x.entry).1 ⟨x, hm, rfl⟩
        obtain ⟨hkind', hname'⟩ := Resource.entry_eq_iff.1 hentry
        have htoken' := projectToken_of_issued h' hm' (hkind'.trans hkind)
        rw [projectToken_of_issued h hm hkind, ← htoken', hname']
      · rw [projectToken_of_not_issued (c := c), projectToken_of_not_issued]
        · rintro ⟨id, x'⟩ hm' hkind' hname'
          obtain ⟨x, hm, hentry⟩ := (hsame id x'.entry).2 ⟨x', hm', rfl⟩
          obtain ⟨hkind, hname⟩ := Resource.entry_eq_iff.1 hentry
          exact hdefined ⟨_, hm, hkind.trans hkind', hname.trans hname'⟩
        · exact fun m hm hkind hname => hdefined ⟨m, hm, hkind, hname⟩

end Filled

end Config
end FlagStack
