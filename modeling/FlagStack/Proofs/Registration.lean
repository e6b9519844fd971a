import FlagStack.Construct
import FlagStack.Proofs.LogicalIds
import Mathlib.Logic.Basic

/-!
# What registering does

An action on a stack is described by its outcome and by the stack it leaves, on
failure as well as on success.

**Results.**
* `on_register`, `on_expose`: an id without letters and digits and an id that is
  taken are refused, and the stack is left as it was.
* `check_eq_ok_iff`: what a definition has to meet, without reference to the order
  of the checks.
* `on_create`: creating is checking and then registering.
-/

namespace FlagStack
namespace Stack
namespace Action

variable {α β : Type}

@[simp] theorem on_pure
    (a : α) (s : Stack) :
    (pure a : Action α).on s = (.ok a, s) := by
  rfl

@[simp] theorem on_liftM
    (outcome : Except Error α) (s : Stack) :
    (liftM outcome : Action α).on s = (outcome, s) := by
  rfl

/-- The second action is taken on the stack that the first one leaves, unless the
first one fails. -/
theorem on_bind
    (a : Action α) (f : α → Action β) (s : Stack) :
    (a >>= f).on s =
      match a.on s with
      | (.ok x, left) => (f x).on left
      | (.error e, left) => (.error e, left) := by
  simp only [on]
  show (ExceptT.bindCont f (a.run.run s).1).run (a.run.run s).2 = _
  cases (a.run.run s) with
  | mk outcome left => cases outcome <;> rfl

theorem on_get_bind
    (f : Stack → Action β) (s : Stack) :
    (get >>= f).on s = (f s).on s := by
  rfl

end Action

/-- An id without letters and digits is refused before anything else is done. -/
theorem on_logicalIdOf_bind
    {α : Type} (id : String) (f : String → Action α) (s : Stack) :
    Action.on (liftM (logicalIdOf id) >>= f) s =
      if keptOf id = "" then (.error (.blankId id), s) else (f (keptOf id)).on s := by
  rw [Action.on_bind, Action.on_liftM, logicalIdOf_eq]
  by_cases hblank : keptOf id = ""
  · rw [if_pos hblank, if_pos hblank]
  · rw [if_neg hblank, if_neg hblank]

/-- The outcome of registering, and the stack after it. -/
theorem on_register
    (id : String) (r : Resource) (s : Stack) :
    (register id r).on s =
      if keptOf id = "" then (.error (.blankId id), s)
      else if s.resources.contains (keptOf id) then (.error (.duplicateId (keptOf id)), s)
      else (.ok (keptOf id), { s with resources := s.resources.put (keptOf id) r }) := by
  rw [register, on_logicalIdOf_bind]
  congr 1
  rw [Action.on_get_bind]
  split <;> rfl

/-- A logical id is registered as it is. -/
theorem on_register_of_isLogicalId
    {id : String} (hid : IsLogicalId id) (r : Resource) (s : Stack) :
    (register id r).on s =
      if s.resources.contains id then (.error (.duplicateId id), s)
      else (.ok id, { s with resources := s.resources.put id r }) := by
  rw [on_register, keptOf_of_alphanumeric hid.2, if_neg hid.1]

theorem on_register_of_free
    {id : String} {s : Stack} (hid : IsLogicalId id) (hfree : ¬ s.resources.contains id)
    (r : Resource) :
    (register id r).on s = (.ok id, { s with resources := s.resources.put id r }) := by
  rw [on_register_of_isLogicalId hid, if_neg hfree]

theorem on_register_of_taken
    {id : String} {s : Stack} (hid : IsLogicalId id) (htaken : s.resources.contains id)
    (r : Resource) :
    (register id r).on s = (.error (.duplicateId id), s) := by
  rw [on_register_of_isLogicalId hid, if_pos htaken]

/-- The outcome of adding an output, and the stack after it. -/
theorem on_expose
    (id : String) (o : Output) (s : Stack) :
    (expose id o).on s =
      if keptOf id = "" then (.error (.blankId id), s)
      else if s.outputs.contains (keptOf id) then (.error (.duplicateId (keptOf id)), s)
      else (.ok (), { s with outputs := s.outputs.put (keptOf id) o }) := by
  rw [expose, on_logicalIdOf_bind]
  congr 1
  rw [Action.on_get_bind]
  split <;> rfl

theorem on_expose_of_isLogicalId
    {id : String} (hid : IsLogicalId id) (o : Output) (s : Stack) :
    (expose id o).on s =
      if s.outputs.contains id then (.error (.duplicateId id), s)
      else (.ok (), { s with outputs := s.outputs.put id o }) := by
  rw [on_expose, keptOf_of_alphanumeric hid.2, if_neg hid.1]

theorem on_expose_of_free
    {id : String} {s : Stack} (hid : IsLogicalId id) (hfree : ¬ s.outputs.contains id)
    (o : Output) :
    (expose id o).on s = (.ok (), { s with outputs := s.outputs.put id o }) := by
  rw [on_expose_of_isLogicalId hid, if_neg hfree]

end Stack

/-- What a definition has to meet: a feature has a variation and no number without
a JSON form, an experiment has at most three goals, and a launch at most five
groups. -/
def Resource.Admissible : Resource → Prop
  | .project _ => True
  | .feature f => f.variations ≠ [] ∧ ∀ v ∈ f.variations, ¬ v.value.isNonFinite
  | .experiment e => e.goals.length ≤ 3
  | .launch l => l.groups.length ≤ 5

section Checks

theorem Feature.check_eq_ok_iff
    (f : Feature) :
    f.check = .ok () ↔ (Resource.feature f).Admissible := by
  simp only [Resource.Admissible]
  rw [Feature.check]
  cases hvariations : f.variations with
  | nil =>
      constructor
      · intro h
        cases h
      · intro h
        exact absurd rfl h.1
  | cons v rest =>
      cases hfind : (v :: rest).find? fun v => v.value.isNonFinite with
      | none =>
          rw [List.find?_eq_none] at hfind
          constructor
          · intro _
            exact ⟨List.cons_ne_nil v rest, hfind⟩
          · intro _
            rfl
      | some w =>
          constructor
          · intro h
            cases h
          · intro h
            exact absurd (List.find?_some hfind) (h.2 w (List.mem_of_find?_eq_some hfind))

theorem Feature.kind_of_check_eq_error
    {f : Feature} {e : Error} (h : f.check = .error e) :
    e.kind = .invalidArgument := by
  simp only [Feature.check] at h
  split at h
  · cases h
    rfl
  · split at h
    · cases h
      rfl
    · cases h

namespace Resource

theorem check_eq_ok_iff
    (r : Resource) :
    r.check = .ok () ↔ r.Admissible := by
  cases r with
  | project p => exact ⟨fun _ => trivial, fun _ => rfl⟩
  | feature f => exact f.check_eq_ok_iff
  | experiment e =>
      by_cases h : e.goals.length ≤ 3 <;> simp [check, Experiment.check, Admissible, maxGoals, h]
  | launch l =>
      by_cases h : l.groups.length ≤ 5 <;> simp [check, Launch.check, Admissible, maxGroups, h]

theorem kind_of_check_eq_error
    {r : Resource} {e : Error} (h : r.check = .error e) :
    e.kind = .invalidArgument := by
  cases r with
  | project p => cases h
  | feature f => exact Feature.kind_of_check_eq_error h
  | experiment x =>
      simp only [check, Experiment.check] at h
      split at h
      · cases h
      · cases h
        rfl
  | launch l =>
      simp only [check, Launch.check] at h
      split at h
      · cases h
      · cases h
        rfl

/-- A definition that is not admissible is refused with a reason. -/
theorem exists_check_eq_error
    {r : Resource} (h : ¬ r.Admissible) :
    ∃ e, r.check = .error e ∧ e.kind = .invalidArgument := by
  cases hcheck : r.check with
  | ok u => exact absurd (r.check_eq_ok_iff.1 hcheck) h
  | error e => exact ⟨e, rfl, kind_of_check_eq_error hcheck⟩

end Resource

end Checks

namespace Stack

/-- The outcome of creating, and the stack after it: what is not admissible is
refused first. -/
theorem on_create
    (id : String) (r : Resource) (s : Stack) :
    (create id r).on s =
      match r.check with
      | .ok () => (register id r).on s
      | .error e => (.error e, s) := by
  rw [create, Action.on_bind, Action.on_liftM]
  cases r.check <;> rfl

theorem on_create_of_admissible
    {r : Resource} (h : r.Admissible) (id : String) (s : Stack) :
    (create id r).on s = (register id r).on s := by
  rw [on_create, r.check_eq_ok_iff.2 h]

end Stack
end FlagStack
