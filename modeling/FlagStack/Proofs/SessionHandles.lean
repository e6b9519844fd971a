import FlagStack.Proofs.SessionHistory

/-!
# The handles of a session

Handles are what later steps refer to earlier ones by.  A run is disciplined if every
handle that a step uses has been obtained before the step.  Which step a handle has
been obtained by is recorded beside the run, as the steps that succeed are.

A handle that has been obtained by creating shows the logical id that its resource is
registered under; a handle that has been obtained by importing shows a text.

**Results.**
* `isUnresolved_arn_iff`: a handle shows an attribute just if it has been obtained by
  creating.
* `handles_run`: the handles that a run adds to a session.
* `Obtained.next`, `obtained_run`: what a step keeps of the handles, and what a run
  keeps.
-/

namespace FlagStack

/-- The handles by which a definition refers to its project. -/
def ProjectSource.handles : ProjectSource → List AnyHandle
  | .text _ => []
  | .handle h => [.project h]

/-- The handles by which an output gets its value. -/
def OutputSource.handles : OutputSource → List AnyHandle
  | .token _ => []
  | .handle h => [h]

/-- The handles that a step uses. -/
def Step.uses : Step → List AnyHandle
  | .createFeature _ source _ => source.handles
  | .createExperiment _ source _ => source.handles
  | .createLaunch _ source _ => source.handles
  | .expose _ source _ => source.handles
  | _ => []

/-- A handle shows a resource name that is known, and no logical id. -/
structure AnyHandle.ShowsText (h : AnyHandle) : Prop where
  arn : ∃ text, h.arn = .literal text
  logicalId : h.logicalId = none

section Imports

theorem ProjectHandle.showsText_ofArn
    {arn : String} {h : ProjectHandle} (hof : ProjectHandle.ofArn arn = .ok h) :
    AnyHandle.ShowsText (.project h) := by
  obtain ⟨imported, -, hof⟩ := bind_eq_ok_iff.1 hof
  cases hof
  exact ⟨⟨arn, rfl⟩, rfl⟩

theorem Handle.eq_of_ofArn
    {Part : Type} {arn : String} {parts : List Part} {h : Handle Part}
    (hof : Handle.ofArn arn parts = .ok h) :
    h.arn = .literal arn ∧ h.logicalId = none := by
  obtain ⟨imported, -, hof⟩ := bind_eq_ok_iff.1 hof
  cases hof
  exact ⟨rfl, rfl⟩

namespace Step

variable {s : Step} {stack : Stack} {h : AnyHandle}

theorem showsText_of_lift
    {α : Type} {outcome : Except Error α} {f : α → AnyHandle}
    (hf : ∀ a, outcome = .ok a → (f a).ShowsText)
    (hok : (Stack.Action.on (liftM outcome >>= fun a => pure (some (f a))) stack).1 =
      .ok (some h)) :
    h.ShowsText := by
  rw [Stack.Action.on_bind, Stack.Action.on_liftM] at hok
  cases hout : outcome with
  | error e =>
      rw [hout] at hok
      cases hok
  | ok a =>
      rw [hout] at hok
      cases hok
      exact hf a hout

/-- What is imported shows a text. -/
theorem showsText_of_import
    (hs : s.isImport) (hok : (s.action.on stack).1 = .ok (some h)) :
    h.ShowsText := by
  cases s with
  | projectOfArn arn =>
      exact showsText_of_lift (fun _ hof => ProjectHandle.showsText_ofArn hof) hok
  | projectOfName name =>
      cases hok
      exact ⟨⟨_, rfl⟩, rfl⟩
  | featureOfArn arn variations =>
      refine showsText_of_lift (f := .feature) (fun _ hof => ?_) hok
      obtain ⟨harn, hid⟩ := Handle.eq_of_ofArn hof
      exact ⟨⟨arn, harn⟩, hid⟩
  | experimentOfArn arn treatments =>
      refine showsText_of_lift (f := .experiment) (fun _ hof => ?_) hok
      obtain ⟨harn, hid⟩ := Handle.eq_of_ofArn hof
      exact ⟨⟨arn, harn⟩, hid⟩
  | launchOfArn arn groups =>
      refine showsText_of_lift (f := .launch) (fun _ hof => ?_) hok
      obtain ⟨harn, hid⟩ := Handle.eq_of_ofArn hof
      exact ⟨⟨arn, harn⟩, hid⟩
  | _ => cases hs

end Step
end Imports

section Handles

@[simp] theorem Resource.arn_handle
    (r : Resource) (key : String) :
    (r.handle key).arn = .arnOf key := by
  cases r <;> rfl

@[simp] theorem Resource.name_handle
    (r : Resource) (key : String) :
    (r.handle key).name = r.name := by
  cases r <;> rfl

theorem Resource.exists_project_of_handle_eq
    {r : Resource} {key : String} {h : ProjectHandle} (heq : .project h = r.handle key) :
    ∃ p, r = .project p ∧ h = ⟨p.name, .arnOf key, some key⟩ := by
  cases r <;> cases heq
  exact ⟨_, rfl, rfl⟩

end Handles

namespace Session

/-- The steps of a run use only handles that have been obtained before. -/
def Disciplined (se : Session) : List Step → Prop
  | [] => True
  | s :: rest => (∀ h ∈ s.uses, h ∈ se.handles) ∧ (se.next s).Disciplined rest

instance decidableDisciplined :
    ∀ (se : Session) (steps : List Step), Decidable (se.Disciplined steps)
  | _, [] => inferInstanceAs (Decidable True)
  | se, s :: rest =>
      have := decidableDisciplined (se.next s) rest
      inferInstanceAs (Decidable ((∀ h ∈ s.uses, h ∈ se.handles) ∧ _))

/-- The handles that a run obtains, in order, each with the step that gives it. -/
def obtained (se : Session) : List Step → List (Step × AnyHandle)
  | [] => []
  | s :: rest =>
      match se.step s with
      | .ok (some h, _) => (s, h) :: (se.next s).obtained rest
      | _ => (se.next s).obtained rest

/-- The handles of a session, by the steps that they have been obtained by. -/
structure Obtained (se : Session) (done : List Step) (log : List (Step × AnyHandle)) : Prop where
  handles : se.handles = log.map Prod.snd
  recorded : ∀ s h, (s, h) ∈ log → s ∈ done
  /-- What has been created has the handle of the resource. -/
  created : ∀ s h id r, (s, h) ∈ log → s.creation? = some (id, r) → h = r.handle (keptOf id)
  imported : ∀ s h, (s, h) ∈ log → s.creation? = none → s.isImport ∧ h.ShowsText
  uses : ∀ s ∈ done, ∀ h ∈ s.uses, h ∈ se.handles

section Runs

variable {se se' : Session} {done : List Step} {log : List (Step × AnyHandle)} {s : Step}

theorem obtained_empty
    (name : String) :
    (empty name).Obtained [] [] := by
  constructor <;> simp [empty]

theorem handles_next_of_ok
    {h? : Option AnyHandle} (hok : se.step s = .ok (h?, se')) :
    se'.handles = se.handles ++ h?.toList := by
  obtain ⟨-, rfl⟩ := step_eq_ok_iff.1 hok
  rw [next, on_of_step_eq_ok hok]
  cases h? <;> simp

/-- Only what creates or imports gives a handle, and a handle that has been created is
that of the resource. -/
theorem handle_of_step
    {h : AnyHandle} (hok : se.step s = .ok (some h, se')) :
    (∀ id r, s.creation? = some (id, r) → h = r.handle (keptOf id)) ∧
      (s.creation? = none → s.isImport ∧ h.ShowsText) := by
  have hon := on_of_step_eq_ok hok
  rcases s.sorts with ⟨id, r, hs, -⟩ | ⟨id, o, hs, -⟩ | ⟨hs, hcreation, -⟩ |
    ⟨account, region, rfl⟩
  · have hregisters := Step.creation_registers hs se.stack
    rw [hon] at hregisters
    obtain ⟨-, -, hhandle, -⟩ := hregisters.ok_cases
    constructor
    · intro id' r' hs'
      cases hs.symm.trans hs'
      exact Option.some.inj hhandle
    · intro hnone
      cases hs.symm.trans hnone
  · have hregisters := Step.output_registers hs se.stack
    rw [hon] at hregisters
    obtain ⟨-, -, hhandle, -⟩ := hregisters.ok_cases
    cases hhandle
  · constructor
    · intro id r hs'
      cases hcreation.symm.trans hs'
    · intro _
      exact ⟨hs, Step.showsText_of_import hs (congrArg Prod.fst hon)⟩
  · cases (Step.environment_keeps account region se.stack).symm.trans hon

/-- A step that succeeds keeps what is known of the handles. -/
theorem Obtained.next
    (h : se.Obtained done log) (huses : ∀ h ∈ s.uses, h ∈ se.handles)
    {h? : Option AnyHandle} (hok : se.step s = .ok (h?, se')) :
    se'.Obtained (done ++ [s]) (log ++ h?.toList.map (Prod.mk s)) := by
  have hhandles := handles_next_of_ok hok
  have hkept : ∀ h ∈ se.handles, h ∈ se'.handles := by
    intro h hh
    rw [hhandles]
    exact List.mem_append_left _ hh
  have hnew : ∀ s' h', (s', h') ∈ h?.toList.map (Prod.mk s) → s' = s ∧ h? = some h' := by
    intro s' h' hmem
    obtain ⟨h'', hh'', heq⟩ := List.mem_map.1 hmem
    cases heq
    exact ⟨rfl, Option.mem_toList.1 hh''⟩
  constructor
  case handles =>
    rw [hhandles, h.handles, List.map_append, List.map_map]
    simp [Function.comp_def]
  case recorded =>
    intro s' h' hmem
    rcases List.mem_append.1 hmem with hold | hmem
    · exact List.mem_append_left _ (h.recorded s' h' hold)
    · obtain ⟨rfl, -⟩ := hnew s' h' hmem
      simp
  case created =>
    intro s' h' id r hmem hs'
    rcases List.mem_append.1 hmem with hold | hmem
    · exact h.created s' h' id r hold hs'
    · obtain ⟨rfl, rfl⟩ := hnew s' h' hmem
      exact (handle_of_step hok).1 id r hs'
  case imported =>
    intro s' h' hmem hs'
    rcases List.mem_append.1 hmem with hold | hmem
    · exact h.imported s' h' hold hs'
    · obtain ⟨rfl, rfl⟩ := hnew s' h' hmem
      exact (handle_of_step hok).2 hs'
  case uses =>
    intro s' hs' h' hh'
    rcases List.mem_append.1 hs' with hdone | hs'
    · exact hkept h' (h.uses s' hdone h' hh')
    · cases List.mem_singleton.1 hs'
      exact hkept h' (huses h' hh')

theorem obtained_cons_of_ok
    {h? : Option AnyHandle} (hok : se.step s = .ok (h?, se')) (rest : List Step) :
    se.obtained (s :: rest) = h?.toList.map (Prod.mk s) ++ se'.obtained rest := by
  obtain ⟨-, rfl⟩ := step_eq_ok_iff.1 hok
  rw [obtained, hok]
  cases h? <;> rfl

theorem handles_run
    (se : Session) (steps : List Step) :
    (se.run steps).handles = se.handles ++ (se.obtained steps).map Prod.snd := by
  induction steps generalizing se with
  | nil => simp [Session.run, obtained]
  | cons s rest ih =>
      have hrun : se.run (s :: rest) = (se.next s).run rest := rfl
      rw [hrun, ih]
      cases hstep : se.step s with
      | ok result =>
          obtain ⟨h?, se'⟩ := result
          obtain ⟨-, rfl⟩ := step_eq_ok_iff.1 hstep
          rw [obtained_cons_of_ok hstep, handles_next_of_ok hstep, List.append_assoc,
            List.map_append, List.map_map]
          simp [Function.comp_def]
      | error e => rw [next_eq_self_of_error hstep, obtained, hstep, next_eq_self_of_error hstep]

/-- A disciplined run keeps what is known of the handles. -/
theorem Obtained.run
    (h : se.Obtained done log) {steps : List Step} (hsteps : se.Disciplined steps) :
    (se.run steps).Obtained (done ++ se.succeeding steps) (log ++ se.obtained steps) := by
  induction steps generalizing se done log with
  | nil => simpa [succeeding, obtained, Session.run] using h
  | cons s rest ih =>
      obtain ⟨huses, hrest⟩ := hsteps
      rw [Session.run, List.foldl_cons, succeeding]
      cases hstep : se.step s with
      | ok result =>
          obtain ⟨h?, se'⟩ := result
          obtain ⟨-, rfl⟩ := step_eq_ok_iff.1 hstep
          rw [obtained_cons_of_ok hstep]
          have hlater := ih (h.next huses hstep) hrest
          rwa [List.append_assoc, List.append_assoc] at hlater
      | error e =>
          rw [obtained, hstep]
          rw [next_eq_self_of_error hstep] at hrest ⊢
          exact ih h hrest

theorem obtained_run
    (name : String) {steps : List Step} (hsteps : (empty name).Disciplined steps) :
    ((empty name).run steps).Obtained
      ((empty name).succeeding steps) ((empty name).obtained steps) :=
  (obtained_empty name).run hsteps

end Runs

section Kinds

variable {se : Session} {done : List Step} {log : List (Step × AnyHandle)} {s : Step}
  {h : AnyHandle}

/-- A handle shows an attribute just if it has been obtained by creating. -/
theorem Obtained.isUnresolved_arn_iff
    (hlog : se.Obtained done log) (hmem : (s, h) ∈ log) :
    h.arn.isUnresolved ↔ s.creation?.isSome := by
  cases hs : s.creation? with
  | some creation =>
      obtain ⟨id, r⟩ := creation
      obtain rfl := hlog.created s h id r hmem hs
      simp [Token.arnOf, Token.isUnresolved]
  | none =>
      obtain ⟨text, htext⟩ := (hlog.imported s h hmem hs).2.arn
      simp [htext, Token.isUnresolved]

theorem Obtained.isImported_iff
    (hlog : se.Obtained done log) (hmem : (s, h) ∈ log) :
    h.isImported ↔ s.creation? = none := by
  rw [AnyHandle.isImported]
  cases hs : s.creation? with
  | some creation =>
      obtain ⟨id, r⟩ := creation
      obtain rfl := hlog.created s h id r hmem hs
      simp
  | none => simp [(hlog.imported s h hmem hs).2.logicalId]

end Kinds

end Session
end FlagStack
