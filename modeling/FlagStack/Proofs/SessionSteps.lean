import FlagStack.Proofs.Outcomes
import FlagStack.Proofs.Registration
import FlagStack.Session

/-!
# What a step of a session does

There are four sorts of steps: creating a resource, adding an output, importing and
setting the environment.  The first two register something under the letters and
digits of an id, and do so in the same way.

**Results.**
* `creation_registers`, `output_registers`: the outcome of a step that registers.
* `next_eq_self_of_error`: a step that fails changes nothing.
-/

namespace FlagStack

/-- The handle of a resource that has been created. -/
def Resource.handle (r : Resource) (key : String) : AnyHandle :=
  match r with
  | .project p => .project ⟨p.name, .arnOf key, some key⟩
  | .feature f => .feature ⟨f.name, .arnOf key, some f.project, f.variations, some key⟩
  | .experiment e => .experiment ⟨e.name, .arnOf key, some e.project, e.treatments, some key⟩
  | .launch l => .launch ⟨l.name, .arnOf key, some l.project, l.groups, some key⟩

@[simp] theorem Resource.logicalId_handle
    (r : Resource) (key : String) :
    (r.handle key).logicalId = some key := by
  cases r <;> rfl

namespace Step

/-- The id and the resource of a step that creates. -/
def creation? : Step → Option (String × Resource)
  | .createProject id p => some (id, .project p)
  | .createFeature id source f => some (id, .feature { f with project := source.token })
  | .createExperiment id source e => some (id, .experiment { e with project := source.token })
  | .createLaunch id source l => some (id, .launch { l with project := source.token })
  | _ => none

/-- The id and the output of a step that adds one. -/
def output? : Step → Option (String × Output)
  | .expose id source description => some (id, ⟨source.value, description⟩)
  | _ => none

def isImport : Step → Bool
  | .projectOfArn _ | .projectOfName _ | .featureOfArn .. | .experimentOfArn ..
  | .launchOfArn .. => true
  | _ => false

/-- How registering under an id can end: it is refused, or the id is taken, or what
is registered is there `after` it. -/
inductive Registers (admissible : Prop) (id : String) (taken : Bool)
    (result : Option AnyHandle) (stack after : Stack) :
    Except Error (Option AnyHandle) × Stack → Prop
  | refused {e : Error} (hkind : e.kind = .invalidArgument)
      (h : ¬ (admissible ∧ keptOf id ≠ "")) :
      Registers admissible id taken result stack after (.error e, stack)
  | duplicate (hadmissible : admissible) (hid : keptOf id ≠ "") (htaken : taken) :
      Registers admissible id taken result stack after (.error (.duplicateId (keptOf id)), stack)
  | added (hadmissible : admissible) (hid : keptOf id ≠ "") (hfree : ¬ taken) :
      Registers admissible id taken result stack after (.ok result, after)

section Outcomes

variable {s : Step} {id : String} {stack : Stack}

/-- A step that creates does no more than to create. -/
theorem action_of_creation
    {r : Resource} (h : s.creation? = some (id, r)) :
    s.action = Stack.create id r >>= fun key => pure (some (r.handle key)) := by
  cases s <;> cases h <;>
    simp only [action, Stack.createProject, Stack.createFeature, Stack.createExperiment,
      Stack.createLaunch, bind_assoc, pure_bind] <;> rfl

theorem creation_registers
    {r : Resource} (h : s.creation? = some (id, r)) (stack : Stack) :
    Registers r.Admissible id (stack.resources.contains (keptOf id))
      (some (r.handle (keptOf id))) stack
      { stack with resources := stack.resources.put (keptOf id) r } (s.action.on stack) := by
  rw [action_of_creation h, Stack.Action.on_bind, Stack.on_create]
  cases hcheck : r.check with
  | error e =>
      have hr : ¬ r.Admissible := fun hr => by
        rw [r.check_eq_ok_iff.2 hr] at hcheck
        cases hcheck
      exact .refused (Resource.kind_of_check_eq_error hcheck) fun h => hr h.1
  | ok u =>
      have hr : r.Admissible := r.check_eq_ok_iff.1 hcheck
      simp only [Stack.on_register]
      by_cases hid : keptOf id = ""
      · rw [if_pos hid]
        exact .refused rfl fun h => h.2 hid
      · rw [if_neg hid]
        by_cases htaken : stack.resources.contains (keptOf id)
        · rw [if_pos htaken]
          exact .duplicate hr hid htaken
        · rw [if_neg htaken]
          exact .added hr hid htaken

theorem output_registers
    {o : Output} (h : s.output? = some (id, o)) (stack : Stack) :
    Registers True id (stack.outputs.contains (keptOf id)) none stack
      { stack with outputs := stack.outputs.put (keptOf id) o } (s.action.on stack) := by
  obtain ⟨source, description, rfl, rfl⟩ :
      ∃ source description, s = .expose id source description ∧ o = ⟨source.value, description⟩ := by
    cases s <;> cases h
    exact ⟨_, _, rfl, rfl⟩
  rw [action, Stack.Action.on_bind, Stack.on_expose]
  by_cases hid : keptOf id = ""
  · rw [if_pos hid]
    exact .refused rfl fun h => h.2 hid
  · rw [if_neg hid]
    by_cases htaken : stack.outputs.contains (keptOf id)
    · rw [if_pos htaken]
      exact .duplicate trivial hid htaken
    · rw [if_neg htaken]
      exact .added trivial hid htaken

theorem lift_keeps
    {α : Type} (outcome : Except Error α) (f : α → Option AnyHandle) (stack : Stack) :
    ∃ result, Stack.Action.on (liftM outcome >>= fun a => pure (f a)) stack = (result, stack) := by
  rw [Stack.Action.on_bind, Stack.Action.on_liftM]
  cases outcome with
  | error e => exact ⟨.error e, rfl⟩
  | ok a => exact ⟨.ok (f a), rfl⟩

/-- An import leaves the stack as it is, whether or not it succeeds. -/
theorem import_keeps
    (h : s.isImport) (stack : Stack) :
    ∃ outcome, s.action.on stack = (outcome, stack) := by
  cases s with
  | projectOfArn arn => exact lift_keeps (ProjectHandle.ofArn arn) _ stack
  | projectOfName name => exact ⟨_, rfl⟩
  | featureOfArn arn variations => exact lift_keeps (Handle.ofArn arn variations) _ stack
  | experimentOfArn arn treatments => exact lift_keeps (Handle.ofArn arn treatments) _ stack
  | launchOfArn arn groups => exact lift_keeps (Handle.ofArn arn groups) _ stack
  | _ => cases h

theorem environment_keeps
    (account region : String) (stack : Stack) :
    (setEnvironment account region).action.on stack =
      (.ok none, stack.withEnvironment account region) := by
  rfl

/-- There are four sorts of steps, of which each is of one sort only. -/
theorem sorts
    (s : Step) :
    (∃ id r, s.creation? = some (id, r) ∧ s.output? = none) ∨
      (∃ id o, s.output? = some (id, o) ∧ s.creation? = none) ∨
      (s.isImport ∧ s.creation? = none ∧ s.output? = none) ∨
      ∃ account region, s = .setEnvironment account region := by
  cases s <;> simp [creation?, output?, isImport]

end Outcomes

section Registering

variable {admissible : Prop} {id : String} {taken : Bool} {result : Option AnyHandle}
  {stack after left : Stack} {outcome : Except Error (Option AnyHandle)} {e : Error}

theorem Registers.unchanged_of_error
    (h : Registers admissible id taken result stack after (.error e, left)) :
    left = stack := by
  cases h <;> rfl

/-- What is refused is not admissible or has no letter or digit in its id, and what
is a duplicate is told with its logical id. -/
theorem Registers.error_cases
    (h : Registers admissible id taken result stack after (.error e, left)) :
    (¬ (admissible ∧ keptOf id ≠ "") ∧ e.kind = .invalidArgument) ∨
      (admissible ∧ keptOf id ≠ "") ∧ e = .duplicateId (keptOf id) := by
  cases h with
  | refused hkind h => exact .inl ⟨h, hkind⟩
  | duplicate hadmissible hid _ => exact .inr ⟨⟨hadmissible, hid⟩, rfl⟩

theorem Registers.ok_cases
    {h? : Option AnyHandle}
    (h : Registers admissible id taken result stack after (.ok h?, left)) :
    (admissible ∧ keptOf id ≠ "") ∧ ¬ taken ∧ h? = result ∧ left = after := by
  cases h with
  | added hadmissible hid hfree => exact ⟨⟨hadmissible, hid⟩, hfree, rfl, rfl⟩

/-- What is registered is there just if nothing stands against it. -/
theorem Registers.succeeds_iff
    (h : Registers admissible id taken result stack after (outcome, left)) :
    (∃ h?, outcome = .ok h?) ↔ (admissible ∧ keptOf id ≠ "") ∧ ¬ taken := by
  cases h with
  | refused _ hnot =>
      constructor
      · rintro ⟨_, h⟩
        cases h
      · rintro ⟨h, -⟩
        exact absurd h hnot
  | duplicate _ _ htaken =>
      constructor
      · rintro ⟨_, h⟩
        cases h
      · rintro ⟨-, hfree⟩
        exact absurd htaken hfree
  | added hadmissible hid hfree => exact ⟨fun _ => ⟨⟨hadmissible, hid⟩, hfree⟩, fun _ => ⟨_, rfl⟩⟩

end Registering

/-- A step that fails leaves the stack as it is. -/
theorem unchanged_of_error
    {s : Step} {stack left : Stack} {e : Error} (h : s.action.on stack = (.error e, left)) :
    left = stack := by
  rcases s.sorts with ⟨id, r, hs, -⟩ | ⟨id, o, hs, -⟩ | ⟨hs, -⟩ | ⟨account, region, rfl⟩
  · have hregisters := creation_registers hs stack
    rw [h] at hregisters
    exact hregisters.unchanged_of_error
  · have hregisters := output_registers hs stack
    rw [h] at hregisters
    exact hregisters.unchanged_of_error
  · obtain ⟨outcome, houtcome⟩ := import_keeps hs stack
    rw [houtcome] at h
    cases h
    rfl
  · cases h

end Step

namespace Session

variable {se se' : Session} {s : Step} {left : Stack}

theorem step_eq_error_iff
    {e : Error} :
    se.step s = .error e ↔ (s.action.on se.stack).1 = .error e := by
  rw [step, bind_eq_error_iff]
  constructor
  · rintro (h | ⟨h?, -, h⟩)
    · exact h
    · cases h
  · exact .inl

theorem step_eq_ok_iff
    {h? : Option AnyHandle} :
    se.step s = .ok (h?, se') ↔ (s.action.on se.stack).1 = .ok h? ∧ se.next s = se' := by
  rw [step, bind_eq_ok_iff]
  constructor
  · rintro ⟨h, hok, heq⟩
    cases heq
    exact ⟨hok, rfl⟩
  · rintro ⟨hok, rfl⟩
    exact ⟨h?, hok, rfl⟩

theorem stack_next
    (se : Session) (s : Step) :
    (se.next s).stack = (s.action.on se.stack).2 := by
  rw [next]
  rcases s.action.on se.stack with ⟨outcome, left⟩
  cases outcome with
  | error e => rfl
  | ok h? => cases h? <;> rfl

theorem on_of_step_eq_ok
    {h? : Option AnyHandle} (h : se.step s = .ok (h?, se')) :
    s.action.on se.stack = (.ok h?, se'.stack) := by
  obtain ⟨houtcome, rfl⟩ := step_eq_ok_iff.1 h
  rw [stack_next, ← houtcome]

theorem on_of_step_eq_error
    {e : Error} (h : se.step s = .error e) :
    s.action.on se.stack = (.error e, se.stack) := by
  rw [step_eq_error_iff] at h
  rcases hon : s.action.on se.stack with ⟨outcome, left⟩
  rw [hon] at h
  cases h
  rw [Step.unchanged_of_error hon]

/-- A step that fails changes nothing. -/
theorem next_eq_self_of_error
    {e : Error} (h : se.step s = .error e) :
    se.next s = se := by
  rw [next, on_of_step_eq_error h]

end Session
end FlagStack
