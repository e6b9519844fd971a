import FlagStack.Proofs.Definitions
import FlagStack.Proofs.EntryIds
import FlagStack.Proofs.Outcomes
import FlagStack.Proofs.Tables

/-!
# Synthesis as one run over the definitions

The four loops of synthesis are one fold over the definitions of the config.  A
loop over definitions that belong to projects does not change the known projects,
so that all references are resolved alike.

**Results.**
* `place_eq`: what the four kinds of definitions have in common.
* `foldlM_definitions`: the four loops are one fold.
-/

namespace FlagStack
namespace Synthesis

/-- The projects that become known when a resource has been made. -/
def knownBy (key : String) : Resource → List (String × ProjectHandle)
  | .project p => [(p.name, ⟨p.name, .arnOf key, some key⟩)]
  | _ => []

namespace State

variable (digest : String → String) (options : Options)

/-- Creates a resource under the id of its entry, and exposes its resource name. -/
def make (st : State) (r : Resource) : Except Error (String × State) := do
  let (id, st) := st.assign digest r.kind r.name
  let (key, st) ← st.act (Stack.create id r)
  return (key, ← st.exposeArn options id (.arnOf key))

/-- Adds a definition of any kind, its reference to a project resolved by
`resolution`. -/
def add (resolution : Token → Token) (st : State) (r : Resource) : Except Error State := do
  let (key, st) ← st.make digest options (r.mapProject resolution)
  return { st with projects := knownBy key r ++ st.projects }

theorem act_eq
    {α : Type} (st : State) (a : Stack.Action α) :
    st.act a =
      match a.on st.stack with
      | (.ok x, left) => .ok (x, { st with stack := left })
      | (.error e, _) => .error e := by
  rw [act]
  cases a.on st.stack with
  | mk outcome left => cases outcome <;> rfl

/-- A constructor that does no more than to create a resource makes it. -/
theorem place_eq
    {H : Type} (st : State) (r : Resource) (create : String → Stack.Action H)
    (arn : H → Token) (handleOf : String → H)
    (hcreate : ∀ id, create id = Stack.create id r >>= fun key => pure (handleOf key))
    (harn : ∀ key, arn (handleOf key) = .arnOf key) :
    st.place digest options r.kind r.name create arn =
      st.make digest options r >>= fun made => pure (handleOf made.1, made.2) := by
  simp only [place, make, hcreate, act_eq, Stack.Action.on_bind, Stack.Action.on_pure]
  rcases (Stack.create (st.assign digest r.kind r.name).1 r).on
    (st.assign digest r.kind r.name).2.stack with ⟨outcome, left⟩
  cases outcome with
  | error e => rfl
  | ok key =>
      show (exposeArn options _ _ (arn (handleOf key)) >>= _) =
        (exposeArn options _ _ (.arnOf key) >>= _) >>= _
      rw [harn]
      cases exposeArn options _ _ (.arnOf key) <;> rfl

theorem addProject_eq
    (resolution : Token → Token) (st : State) (p : Project) :
    st.addProject digest options p = st.add digest options resolution (.project p) := by
  have hplace := place_eq digest options st (.project p) (Stack.createProject · p)
    ProjectHandle.arn (fun key => ⟨p.name, .arnOf key, some key⟩)
    (fun _ => rfl) (fun _ => rfl)
  simp only [Resource.kind, Resource.name] at hplace
  simp only [addProject, hplace, add, Resource.mapProject]
  cases st.make digest options _ <;> rfl

theorem addFeature_eq
    (st : State) (f : Feature) :
    st.addFeature digest options f = st.add digest options st.resolve (.feature f) := by
  have hplace := place_eq digest options st (.feature { f with project := st.resolve f.project })
    (Stack.createFeature · _) Handle.arn
    (fun key => ⟨f.name, .arnOf key, some (st.resolve f.project), f.variations, some key⟩)
    (fun _ => rfl) (fun _ => rfl)
  simp only [Resource.kind, Resource.name] at hplace
  simp only [addFeature, hplace, add, Resource.mapProject]
  cases st.make digest options _ <;> rfl

theorem addExperiment_eq
    (st : State) (e : Experiment) :
    st.addExperiment digest options e = st.add digest options st.resolve (.experiment e) := by
  have hplace := place_eq digest options st (.experiment { e with project := st.resolve e.project })
    (Stack.createExperiment · _) Handle.arn
    (fun key => ⟨e.name, .arnOf key, some (st.resolve e.project), e.treatments, some key⟩)
    (fun _ => rfl) (fun _ => rfl)
  simp only [Resource.kind, Resource.name] at hplace
  simp only [addExperiment, hplace, add, Resource.mapProject]
  cases st.make digest options _ <;> rfl

theorem addLaunch_eq
    (st : State) (l : Launch) :
    st.addLaunch digest options l = st.add digest options st.resolve (.launch l) := by
  have hplace := place_eq digest options st (.launch { l with project := st.resolve l.project })
    (Stack.createLaunch · _) Handle.arn
    (fun key => ⟨l.name, .arnOf key, some (st.resolve l.project), l.groups, some key⟩)
    (fun _ => rfl) (fun _ => rfl)
  simp only [Resource.kind, Resource.name] at hplace
  simp only [addLaunch, hplace, add, Resource.mapProject]
  cases st.make digest options _ <;> rfl

section Projects

variable {digest options} {st st' : State}

/-- References are resolved by the known projects only. -/
theorem resolve_congr
    (h : st.projects = st'.projects) :
    st.resolve = st'.resolve := by
  funext t
  simp only [resolve, h]

theorem projects_act
    {α : Type} {a : Stack.Action α} {x : α} (h : st.act a = .ok (x, st')) :
    st'.projects = st.projects := by
  rw [act, bind_eq_ok_iff] at h
  obtain ⟨y, -, hy⟩ := h
  cases hy
  rfl

theorem projects_exposeArn
    {id : String} {arn : Token} (h : st.exposeArn options id arn = .ok st') :
    st'.projects = st.projects := by
  rw [exposeArn] at h
  split at h
  · obtain ⟨⟨u, left⟩, hact, hleft⟩ := bind_eq_ok_iff.1 h
    cases hleft
    exact projects_act hact
  · cases h
    rfl

theorem projects_make
    {r : Resource} {key : String} (h : st.make digest options r = .ok (key, st')) :
    st'.projects = st.projects := by
  obtain ⟨⟨made, left⟩, hact, hmade⟩ := bind_eq_ok_iff.1 h
  obtain ⟨last, hexpose, hlast⟩ := bind_eq_ok_iff.1 hmade
  cases hlast
  rw [projects_exposeArn hexpose, projects_act hact]

/-- Only projects become known. -/
theorem projects_add
    {resolution : Token → Token} {r : Resource} (hr : r.kind ≠ .project)
    (h : st.add digest options resolution r = .ok st') :
    st'.projects = st.projects := by
  obtain ⟨⟨key, left⟩, hmake, hleft⟩ := bind_eq_ok_iff.1 h
  have hknown : knownBy key r = [] := by
    cases r with
    | project p => exact absurd rfl hr
    | feature f => rfl
    | experiment e => rfl
    | launch l => rfl
  cases hleft
  show knownBy key r ++ left.projects = st.projects
  rw [hknown, List.nil_append, projects_make hmake]

end Projects

section Loops

variable {digest options} {st : State}

/-- A loop over definitions that belong to projects resolves references as its
start does, and does not change the known projects. -/
theorem foldlM_eq_add
    {α : Type} {l : List α} {step : State → α → Except Error State} {make : α → Resource}
    (hstep : ∀ st a, step st a = st.add digest options st.resolve (make a))
    (hkind : ∀ a, (make a).kind ≠ .project)
    {start : State} (hst : st.projects = start.projects) :
    l.foldlM step st = (l.map make).foldlM (add digest options start.resolve) st := by
  rw [List.foldlM_map]
  refine foldlM_congr_of_invariant (fun st => st.projects = start.projects) ?_ ?_ hst
  · intro st hst a _
    rw [hstep, resolve_congr hst]
  · intro st hst a _ st' h
    rw [hstep] at h
    rw [projects_add (hkind a) h, hst]

theorem projects_foldlM_add
    {resolution : Token → Token} {rs : List Resource} (hkind : ∀ r ∈ rs, r.kind ≠ .project)
    {st' : State} (h : rs.foldlM (add digest options resolution) st = .ok st') :
    st'.projects = st.projects := by
  refine foldlM_invariant (fun x => x.projects = st.projects) ?_ rfl h
  intro x hx r hr x' hadd
  rw [projects_add (hkind r hr) hadd, hx]

theorem foldlM_members
    (c : Config) (st : State) :
    (do
      let st ← c.features.foldlM (addFeature digest options) st
      let st ← c.experiments.foldlM (addExperiment digest options) st
      c.launches.foldlM (addLaunch digest options) st) =
      c.members.foldlM (add digest options st.resolve) st := by
  rw [Config.members, List.foldlM_append, List.foldlM_append, bind_assoc,
    foldlM_eq_add (addFeature_eq digest options) (by simp [Resource.kind]) rfl]
  cases hf : (c.features.map .feature).foldlM (add digest options st.resolve) st with
  | error e => rfl
  | ok st₁ =>
      have h₁ : st₁.projects = st.projects :=
        projects_foldlM_add (by simp [Resource.kind]) hf
      rw [ok_bind, ok_bind, foldlM_eq_add (addExperiment_eq digest options) (by simp [Resource.kind]) h₁]
      cases he : (c.experiments.map .experiment).foldlM (add digest options st.resolve) st₁ with
      | error e => rfl
      | ok st₂ =>
          have h₂ : st₂.projects = st₁.projects :=
            projects_foldlM_add (by simp [Resource.kind]) he
          rw [ok_bind, ok_bind,
            foldlM_eq_add (addLaunch_eq digest options) (by simp [Resource.kind]) (h₂.trans h₁)]

end Loops

end State

/-- The four loops are one fold, in which references are resolved by the projects
that are known at its end. -/
theorem foldlM_definitions
    (digest : String → String) (options : Options) (c : Config) (st : State) :
    ∃ resolution,
      (do
        let st ← c.projects.foldlM (State.addProject digest options) st
        let st ← c.features.foldlM (State.addFeature digest options) st
        let st ← c.experiments.foldlM (State.addExperiment digest options) st
        c.launches.foldlM (State.addLaunch digest options) st) =
        c.definitions.foldlM (State.add digest options resolution) st ∧
      ∀ last, c.definitions.foldlM (State.add digest options resolution) st = .ok last →
        last.resolve = resolution := by
  have hprojects : ∀ resolution,
      c.projects.foldlM (State.addProject digest options) st =
        (c.projects.map .project).foldlM (State.add digest options resolution) st := by
    intro resolution
    rw [List.foldlM_map]
    congr 1
    funext st p
    exact State.addProject_eq digest options resolution st p
  cases hfirst : c.projects.foldlM (State.addProject digest options) st with
  | error e =>
      refine ⟨id, ?_, ?_⟩
      · rw [Config.definitions, List.foldlM_append, ← hprojects, hfirst]
        rfl
      · intro last h
        rw [Config.definitions, List.foldlM_append, ← hprojects, hfirst] at h
        cases h
  | ok known =>
      have hrun : c.definitions.foldlM (State.add digest options known.resolve) st =
          c.members.foldlM (State.add digest options known.resolve) known := by
        rw [Config.definitions, List.foldlM_append, ← hprojects, hfirst]
        rfl
      refine ⟨known.resolve, ?_, ?_⟩
      · rw [hrun, ← State.foldlM_members]
        rfl
      · intro last h
        rw [hrun] at h
        refine State.resolve_congr (State.projects_foldlM_add ?_ h)
        simp [Config.members, Resource.kind, or_imp, forall_and]

end Synthesis
end FlagStack
