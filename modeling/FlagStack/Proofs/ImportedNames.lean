import FlagStack.Proofs.ResourcePaths
import FlagStack.Proofs.SessionSteps

/-!
# Names that imports recover

An import takes the name and the project from a resource name.  Of a resource name that
has been written with a name and a project these are the ones that it gives back, and of
one that a stack has written for a project it gives back the handle.

An import fails just if its text is no resource name, or if the path of the resource
ends in a separator, so that there is no name.

Every stack is in one partition, since there is no operation that changes it.

**Results.**
* `Built.partition`, `built_run`: the partition of a stack that has been built, and of
  the stack of a session.
* `refusesUnusable_ofArn`: which texts an import refuses.
* `imports_recover_names`: which handles imports give.
-/

namespace FlagStack

namespace Stack

/-- A stack that operations have led to. -/
inductive Built : Stack → Prop
  | empty (name : String) : Built (.empty name)
  | withEnvironment {s : Stack} (h : Built s) (account region : String) :
      Built (s.withEnvironment account region)
  | register {s : Stack} (h : Built s) (id : String) (r : Resource) :
      Built ((register id r).on s).2
  | expose {s : Stack} (h : Built s) (id : String) (o : Output) :
      Built ((expose id o).on s).2

/-- No operation changes the partition. -/
theorem Built.partition
    {s : Stack} (h : s.Built) :
    s.partition = "aws" := by
  induction h with
  | empty name => rfl
  | withEnvironment _ account region ih => exact ih
  | register _ id r ih =>
      rw [on_register]
      split
      · exact ih
      · split <;> exact ih
  | expose _ id o ih =>
      rw [on_expose]
      split
      · exact ih
      · split <;> exact ih

end Stack

section Sessions

theorem Step.built_on
    {stack : Stack} (h : stack.Built) (s : Step) :
    (s.action.on stack).2.Built := by
  rcases s.sorts with ⟨id, r, hs, -⟩ | ⟨id, o, hs, -⟩ | ⟨hs, -⟩ | ⟨account, region, rfl⟩
  · have hregister := h.register id r
    rw [action_of_creation hs, Stack.Action.on_bind, Stack.on_create]
    cases r.check with
    | error e => exact h
    | ok u =>
        rcases hon : (Stack.register id r).on stack with ⟨outcome, left⟩
        rw [hon] at hregister
        cases outcome <;> exact hregister
  · have hexpose := h.expose id o
    cases s <;> cases hs
    rw [action, Stack.Action.on_bind]
    rcases hon : (Stack.expose id _).on stack with ⟨outcome, left⟩
    rw [hon] at hexpose
    cases outcome <;> exact hexpose
  · obtain ⟨outcome, houtcome⟩ := import_keeps hs stack
    rw [houtcome]
    exact h
  · exact h.withEnvironment account region

/-- The stack of a session has been built. -/
theorem Session.built_run
    {se : Session} (h : se.stack.Built) (steps : List Step) :
    (se.run steps).stack.Built := by
  induction steps generalizing se with
  | nil => exact h
  | cons s rest ih =>
      have hnext : (se.next s).stack.Built := by
        rw [stack_next]
        exact s.built_on h
      exact ih hnext

end Sessions

/-- A text from which nothing can be imported: it is no resource name, or the path of
the resource ends in a separator. -/
def Arn.Unusable (s : String) : Prop :=
  (∃ fault, parse s = .error fault) ∨
    ∃ a, parse s = .ok a ∧ ∃ c ∈ ['/', ':'], [c] <:+ a.resource.toList

/-- An import fails just if nothing can be imported from its text, and then it is the
resource name that is at fault. -/
def RefusesUnusable {α : Type} (ofArn : String → Except Error α) : Prop :=
  ∀ s, ((∃ e, ofArn s = .error e) ↔ Arn.Unusable s) ∧ ∀ e, ofArn s = .error e → e.kind = .invalidArn

namespace Imported

variable {s : String} {a : Arn}

theorem ofArn_of_parse
    (h : Arn.parse s = .ok a) :
    ofArn s = a.name.mapError .arn >>= fun name => pure ⟨a.nameAfter "project", name⟩ := by
  rw [ofArn, h]
  rfl

theorem refusesUnusable_ofArn :
    RefusesUnusable ofArn := by
  intro s
  cases hparse : Arn.parse s with
  | error fault =>
      have hof : ofArn s = .error (.arn fault) := by
        rw [ofArn, hparse]
        rfl
      refine ⟨iff_of_true ⟨_, hof⟩ (.inl ⟨fault, hparse⟩), ?_⟩
      intro e he
      cases hof.symm.trans he
      rfl
  | ok a =>
      have hgiven : a.resource ≠ "" :=
        (Arn.parse_eq_ok_iff.1 hparse).1.given a.resource (by simp)
      have hunusable : Arn.Unusable s ↔ ∃ c ∈ ['/', ':'], [c] <:+ a.resource.toList := by
        simp [Arn.Unusable, hparse]
      rw [hunusable, ← Arn.exists_name_eq_error_iff hgiven, ofArn_of_parse hparse]
      cases a.name with
      | error fault =>
          refine ⟨iff_of_true ⟨_, rfl⟩ ⟨fault, rfl⟩, ?_⟩
          intro e he
          cases he
          rfl
      | ok name => exact ⟨iff_of_false nofun nofun, nofun⟩

/-- What is made of the parts that an import takes is there just if they are. -/
theorem refusesUnusable_map
    {α : Type} (make : String → Imported → α) :
    RefusesUnusable fun s => ofArn s >>= fun imported => pure (make s imported) := by
  intro s
  have herror : ∀ e, (ofArn s >>= fun imported => pure (make s imported)) = .error e ↔
      ofArn s = .error e := by
    intro e
    rw [bind_eq_error_iff]
    constructor
    · rintro (h | ⟨imported, -, h⟩)
      · exact h
      · cases h
    · exact .inl
  simpa only [herror] using refusesUnusable_ofArn s

end Imported

section Handles

variable {a : Arn} {name : String}

theorem ProjectHandle.ofArn_text
    (hwell : a.WellFormed) (hname : a.name = .ok name) :
    ofArn a.text = .ok ⟨name, .literal a.text, none⟩ := by
  rw [ofArn, Imported.ofArn_of_parse (Arn.parse_eq_ok_iff.2 ⟨hwell, rfl⟩), hname]
  rfl

theorem Handle.ofArn_text
    {Part : Type} (hwell : a.WellFormed) (hname : a.name = .ok name) (parts : List Part) :
    ofArn a.text parts =
      .ok ⟨name, .literal a.text, (a.nameAfter "project").map .literal, parts, none⟩ := by
  rw [ofArn, Imported.ofArn_of_parse (Arn.parse_eq_ok_iff.2 ⟨hwell, rfl⟩), hname]
  rfl

/-- The resource name of a project in the environment of a stack. -/
theorem Stack.arnOf_wellFormed
    {s : Stack} (hs : s.Built) (haccount : ':' ∉ s.account.toList) (hregion : ':' ∉ s.region.toList)
    {resource : String} (hresource : resource ≠ "") :
    (Arn.mk s.partition "evidently" s.region s.account resource).WellFormed := by
  rw [hs.partition]
  constructor
  · simp [haccount, hregion]
  · simp [hresource]

end Handles

/-- Imports give back what a resource name has been written with.

Of the resource name of something that belongs to a project they give the name, the
project as a text, the resource name as it is and the parts that the caller knows, also
where the project or the name is a word for a kind.  Of the resource name that a stack
writes for a project they give the handle that the stack gives.  They fail on a text that
is no resource name or whose path ends in a separator, and on no other. -/
theorem imports_recover_names :
    (∀ (partition service region account project name : String) (kind : Kind),
      (∀ part ∈ [partition, service, region, account], ':' ∉ part.toList) →
      partition ≠ "" → service ≠ "" →
      project ≠ "" → '/' ∉ project.toList →
      name ≠ "" → (∀ c ∈ ['/', ':'], c ∉ name.toList) →
      ∀ (Part : Type) (parts : List Part),
        let arn := (Arn.mk partition service region account (kind.pathIn project name)).text
        Handle.ofArn arn parts =
          .ok ⟨name, .literal arn, some (.literal project), parts, none⟩) ∧
    (∀ s : Stack, s.Built → ':' ∉ s.account.toList → ':' ∉ s.region.toList →
      ∀ name, name ≠ "" → (∀ c ∈ ['/', ':'], c ∉ name.toList) →
        ∃ arn, (ProjectHandle.ofName s name).arn = .literal arn ∧
          ProjectHandle.ofArn arn = .ok (ProjectHandle.ofName s name)) ∧
    RefusesUnusable ProjectHandle.ofArn ∧
    ∀ (Part : Type) (parts : List Part), RefusesUnusable fun arn => Handle.ofArn arn parts := by
  refine ⟨?_, ?_, ?_, ?_⟩
  · intro partition service region account project name kind hcolon hpartition hservice
      hproject hslash hname hplain Part parts arn
    let a := Arn.mk partition service region account (kind.pathIn project name)
    have hwell : a.WellFormed := by
      refine ⟨hcolon, ?_⟩
      have hresource : kind.pathIn project name ≠ "" := by simp [Kind.pathIn]
      simp [a, hpartition, hservice, hresource]
    have hfound := a.nameAfter_project rfl hslash hproject (hplain '/' (by simp))
    have hhandle := Handle.ofArn_text hwell (Arn.name_pathIn rfl hname hplain) parts
    rwa [hfound] at hhandle
  · intro s hs haccount hregion name hname hplain
    refine ⟨_, rfl, ?_⟩
    have hresource : "project/" ++ name ≠ "" := by simp
    have hpath : ("project/" ++ name).toList = "project".toList ++ '/' :: name.toList := by simp
    refine ProjectHandle.ofArn_text (Stack.arnOf_wellFormed hs haccount hregion hresource) ?_
    exact Arn.name_of_append hpath (by simp) hname hplain
  · exact Imported.refusesUnusable_map fun s imported =>
      ProjectHandle.mk imported.name (.literal s) none
  · intro Part parts
    exact Imported.refusesUnusable_map fun s imported =>
      Handle.mk imported.name (.literal s) (imported.project.map .literal) parts none

/-- A stack without an account. -/
def unowned : Stack :=
  ((Session.empty "s").run [.setEnvironment "" "eu-west-1"]).stack

theorem unowned_recovered :
    Handle.ofArn "arn:aws:evidently:::project/project/feature/feature" [some true, none] =
        .ok ⟨"feature", .literal "arn:aws:evidently:::project/project/feature/feature",
          some (.literal "project"), [some true, none], none⟩ ∧
      ∃ arn, (ProjectHandle.ofName unowned "project").arn = .literal arn ∧
        ProjectHandle.ofArn arn = .ok (ProjectHandle.ofName unowned "project") := by
  have hplain : ∀ c ∈ ['/', ':'], c ∉ "project".toList ∧ c ∉ "feature".toList := by simp
  have hbuilt : unowned.Built := Session.built_run (.empty "s") _
  refine ⟨imports_recover_names.1 "aws" "evidently" "" "" "project" "feature" .feature
    (by decide) (by decide) (by decide) (by decide) (hplain '/' (by simp)).1 (by decide)
    (fun c hc => (hplain c hc).2) (Option Bool) _, ?_⟩
  exact imports_recover_names.2.1 unowned hbuilt List.not_mem_nil (by decide) "project" (by decide)
    fun c hc => (hplain c hc).1

end FlagStack
