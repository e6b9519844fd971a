import FlagStack.Proofs.Rendering
import FlagStack.Proofs.SessionSteps

/-!
# The history of a session

What a session has made of its steps can be read off the steps that succeeded: the
resources are those of the creations, the outputs those of the steps that added
one, each under the letters and digits of its id.

**Results.**
* `recorded_run`: the stack of a session holds what has succeeded, and nothing else.
* `Recorded.lawful`: when the next step succeeds, and what it changes.
* `get?_run_of_created`: what has been created stays.
-/

namespace FlagStack

namespace Table

variable {α : Type}

/-- A table is made of entries under different logical ids. -/
structure Holds (t : Table α) (entries : List (String × α)) : Prop where
  eq : t = ofList entries
  distinct : (entries.map Prod.fst).Nodup
  logical : ∀ e ∈ entries, IsLogicalId e.1

variable {t : Table α} {entries : List (String × α)} {key : String} {a : α}

theorem holds_empty :
    (empty : Table α).Holds [] :=
  ⟨rfl, List.nodup_nil, fun _ he => (by cases he)⟩

theorem Holds.contains_iff
    (h : t.Holds entries) :
    t.contains key ↔ ∃ a, (key, a) ∈ entries := by
  rw [h.eq, contains_ofList h.distinct]
  simp

theorem Holds.get?_eq_some_iff
    (h : t.Holds entries) :
    t.get? key = some a ↔ (key, a) ∈ entries := by
  rw [h.eq, get?_ofList_eq_some_iff h.distinct]

theorem Holds.isLogicalId
    (h : t.Holds entries) (hkey : t.contains key) :
    IsLogicalId key := by
  obtain ⟨a, ha⟩ := h.contains_iff.1 hkey
  exact h.logical _ ha

theorem Holds.put
    (h : t.Holds entries) (hlogical : IsLogicalId key) (hfree : ¬ t.contains key) (a : α) :
    (t.put key a).Holds (entries ++ [(key, a)]) := by
  constructor
  · rw [ofList_append_singleton, ← h.eq]
  · rw [List.map_append, List.nodup_append]
    refine ⟨h.distinct, by simp, ?_⟩
    intro k hk k' hk' heq
    obtain ⟨⟨_, b⟩, hb, rfl⟩ := List.mem_map.1 hk
    rw [show k' = key by simpa using hk'] at heq
    exact hfree (h.contains_iff.2 ⟨b, heq ▸ hb⟩)
  · intro e he
    rcases List.mem_append.1 he with he | he
    · exact h.logical e he
    · rw [List.mem_singleton.1 he]
      exact hlogical

end Table

namespace Step

variable {α : Type} {of : Step → Option (String × α)} {steps : List Step} {s : Step}

/-- What some steps register, under the letters and digits of the ids. -/
def registered (of : Step → Option (String × α)) (steps : List Step) : List (String × α) :=
  steps.filterMap fun s => (of s).map fun e => (keptOf e.1, e.2)

theorem mem_registered_iff
    {key : String} {a : α} :
    (key, a) ∈ registered of steps ↔ ∃ s ∈ steps, ∃ id, of s = some (id, a) ∧ keptOf id = key := by
  simp [registered]

theorem registered_append_of_some
    {id : String} {a : α} (h : of s = some (id, a)) :
    registered of (steps ++ [s]) = registered of steps ++ [(keptOf id, a)] := by
  simp [registered, h]

theorem registered_append_of_none
    (h : of s = none) :
    registered of (steps ++ [s]) = registered of steps := by
  simp [registered, h]

end Step

namespace Session

/-- The steps of a run that succeed, in order. -/
def succeeding (se : Session) : List Step → List Step
  | [] => []
  | s :: rest =>
      match se.step s with
      | .ok _ => s :: (se.next s).succeeding rest
      | .error _ => (se.next s).succeeding rest

/-- The stack of a session holds what some steps register, and nothing else. -/
structure Recorded (se : Session) (done : List Step) : Prop where
  resources : se.stack.resources.Holds (Step.registered Step.creation? done)
  outputs : se.stack.outputs.Holds (Step.registered Step.output? done)

section Runs

variable {se se' : Session} {done : List Step} {s : Step}

theorem recorded_empty
    (name : String) :
    (empty name).Recorded [] :=
  ⟨Table.holds_empty, Table.holds_empty⟩

/-- A step that succeeds is recorded. -/
theorem Recorded.next
    (h : se.Recorded done) {h? : Option AnyHandle} (hok : se.step s = .ok (h?, se')) :
    se'.Recorded (done ++ [s]) := by
  have hon := on_of_step_eq_ok hok
  rcases s.sorts with ⟨id, r, hs, hnone⟩ | ⟨id, o, hs, hnone⟩ | ⟨hs, hcreation, houtput⟩ |
    ⟨account, region, rfl⟩
  · have hregisters := Step.creation_registers hs se.stack
    rw [hon] at hregisters
    obtain ⟨⟨-, hid⟩, hfree, -, hstack⟩ := hregisters.ok_cases
    constructor
    · rw [hstack, Step.registered_append_of_some hs]
      exact h.resources.put ⟨hid, alphanumeric_keptOf id⟩ hfree r
    · rw [hstack, Step.registered_append_of_none hnone]
      exact h.outputs
  · have hregisters := Step.output_registers hs se.stack
    rw [hon] at hregisters
    obtain ⟨⟨-, hid⟩, hfree, -, hstack⟩ := hregisters.ok_cases
    constructor
    · rw [hstack, Step.registered_append_of_none hnone]
      exact h.resources
    · rw [hstack, Step.registered_append_of_some hs]
      exact h.outputs.put ⟨hid, alphanumeric_keptOf id⟩ hfree o
  · obtain ⟨outcome, himport⟩ := Step.import_keeps hs se.stack
    have hstack : se.stack = se'.stack := congrArg Prod.snd (himport.symm.trans hon)
    constructor
    · rw [← hstack, Step.registered_append_of_none hcreation]
      exact h.resources
    · rw [← hstack, Step.registered_append_of_none houtput]
      exact h.outputs
  · have hstack : se.stack.withEnvironment account region = se'.stack :=
      congrArg Prod.snd ((Step.environment_keeps account region se.stack).symm.trans hon)
    constructor
    · rw [← hstack, Step.registered_append_of_none rfl]
      exact h.resources
    · rw [← hstack, Step.registered_append_of_none rfl]
      exact h.outputs

/-- A run records the steps that succeed in it. -/
theorem Recorded.run
    (h : se.Recorded done) (steps : List Step) :
    (se.run steps).Recorded (done ++ se.succeeding steps) := by
  induction steps generalizing se done with
  | nil => simpa [succeeding, Session.run] using h
  | cons s rest ih =>
      rw [Session.run, List.foldl_cons, succeeding]
      cases hstep : se.step s with
      | ok result =>
          obtain ⟨h?, se'⟩ := result
          obtain ⟨-, rfl⟩ := step_eq_ok_iff.1 hstep
          have hrest := ih (h.next hstep)
          rwa [List.append_assoc] at hrest
      | error e =>
          rw [next_eq_self_of_error hstep]
          exact ih h

/-- The stack of a session holds what has succeeded, and nothing else. -/
theorem recorded_run
    (name : String) (steps : List Step) :
    ((empty name).run steps).Recorded ((empty name).succeeding steps) :=
  (recorded_empty name).run steps

theorem succeeding_sublist
    (se : Session) (steps : List Step) :
    (se.succeeding steps).Sublist steps := by
  induction steps generalizing se with
  | nil => exact .slnil
  | cons s rest ih =>
      rw [succeeding]
      split
      · exact (ih _).cons_cons s
      · exact (ih _).cons s

theorem mem_succeeding
    {before after : List Step} {h? : Option AnyHandle}
    (hok : (se.run before).step s = .ok (h?, se')) :
    s ∈ se.succeeding (before ++ s :: after) := by
  induction before generalizing se with
  | nil =>
      have hok : se.step s = .ok (h?, se') := hok
      rw [List.nil_append, succeeding, hok]
      exact List.mem_cons_self
  | cons first before ih =>
      have hrest := ih hok
      rw [List.cons_append, succeeding]
      cases se.step first with
      | ok result => exact List.mem_cons_of_mem _ hrest
      | error e => exact hrest

end Runs

/-- What holds of a session in which some steps have succeeded, whatever step comes
next. -/
structure Lawful (se : Session) (done : List Step) : Prop where
  /-- Keys are logical ids. -/
  keys : ∀ key, se.stack.resources.contains key ∨ se.stack.outputs.contains key →
    IsLogicalId key
  /-- A creation succeeds just if its definition is admissible, its id has a letter
  or digit, and no creation has succeeded under the same letters and digits. -/
  creation : ∀ s id r, s.creation? = some (id, r) →
    ((∃ h? se', se.step s = .ok (h?, se')) ↔
      (r.Admissible ∧ ∃ c ∈ id.toList, c.isAlphanum) ∧
        ∀ s' ∈ done, ∀ id' r', s'.creation? = some (id', r') → keptOf id' ≠ keptOf id)
  creationError : ∀ s id r e, s.creation? = some (id, r) → se.step s = .error e →
    (¬ (r.Admissible ∧ ∃ c ∈ id.toList, c.isAlphanum) ∧ e.kind = .invalidArgument) ∨
      (r.Admissible ∧ ∃ c ∈ id.toList, c.isAlphanum) ∧ e = .duplicateId (keptOf id)
  /-- A creation that succeeds gives a handle of its logical id, and adds one record
  where there was none. -/
  created : ∀ s id r h? se', s.creation? = some (id, r) → se.step s = .ok (h?, se') →
    h? = some (r.handle (keptOf id)) ∧
      se.stack.resources.get? (keptOf id) = none ∧
      se'.stack = { se.stack with resources := se.stack.resources.put (keptOf id) r } ∧
      se'.stack.size = se.stack.size + 1
  /-- An output is added just if its id has a letter or digit, and none has been
  added under the same letters and digits. -/
  output : ∀ s id o, s.output? = some (id, o) →
    ((∃ h? se', se.step s = .ok (h?, se')) ↔
      (∃ c ∈ id.toList, c.isAlphanum) ∧
        ∀ s' ∈ done, ∀ id' o', s'.output? = some (id', o') → keptOf id' ≠ keptOf id)
  outputError : ∀ s id o e, s.output? = some (id, o) → se.step s = .error e →
    ((¬ ∃ c ∈ id.toList, c.isAlphanum) ∧ e.kind = .invalidArgument) ∨
      (∃ c ∈ id.toList, c.isAlphanum) ∧ e = .duplicateId (keptOf id)
  added : ∀ s id o h? se', s.output? = some (id, o) → se.step s = .ok (h?, se') →
    se.stack.outputs.get? (keptOf id) = none ∧
      se'.stack = { se.stack with outputs := se.stack.outputs.put (keptOf id) o }
  /-- A step that fails changes nothing. -/
  failure : ∀ s e, se.step s = .error e → se.next s = se
  imports : ∀ s, s.isImport → (se.next s).stack = se.stack
  environment : ∀ account region,
    (se.next (.setEnvironment account region)).stack =
      se.stack.withEnvironment account region

section Laws

variable {se se' : Session} {done : List Step} {s : Step} {id : String}

/-- Whether a step that registers succeeds, by what stands in its table. -/
theorem exists_ok_iff_of_registers
    {admissible : Prop} {taken : Bool} {result : Option AnyHandle} {after : Stack}
    (h : Step.Registers admissible id taken result se.stack after (s.action.on se.stack)) :
    (∃ h? se', se.step s = .ok (h?, se')) ↔ (admissible ∧ keptOf id ≠ "") ∧ ¬ taken := by
  rw [← h.succeeds_iff]
  constructor
  · rintro ⟨h?, se', hok⟩
    exact ⟨h?, (step_eq_ok_iff.1 hok).1⟩
  · rintro ⟨h?, hok⟩
    exact ⟨h?, se.next s, step_eq_ok_iff.2 ⟨hok, rfl⟩⟩

/-- A key is taken just if a step that has succeeded took it. -/
theorem not_contains_iff
    {α : Type} {t : Table α} {of : Step → Option (String × α)}
    (h : t.Holds (Step.registered of done)) :
    ¬ t.contains (keptOf id) ↔
      ∀ s' ∈ done, ∀ id' a, of s' = some (id', a) → keptOf id' ≠ keptOf id := by
  rw [h.contains_iff]
  constructor
  · intro hfree s' hs' id' a hof heq
    exact hfree ⟨a, Step.mem_registered_iff.2 ⟨s', hs', id', hof, heq⟩⟩
  · rintro hfree ⟨a, ha⟩
    obtain ⟨s', hs', id', hof, heq⟩ := Step.mem_registered_iff.1 ha
    exact hfree s' hs' id' a hof heq

theorem Recorded.lawful
    (h : se.Recorded done) :
    se.Lawful done := by
  constructor
  case keys =>
    rintro key (hkey | hkey)
    · exact h.resources.isLogicalId hkey
    · exact h.outputs.isLogicalId hkey
  case creation =>
    intro s id r hs
    rw [exists_ok_iff_of_registers (Step.creation_registers hs se.stack),
      not_contains_iff h.resources, keptOf_ne_empty_iff]
  case creationError =>
    intro s id r e hs he
    have hregisters := Step.creation_registers hs se.stack
    rw [on_of_step_eq_error he] at hregisters
    simpa only [keptOf_ne_empty_iff] using hregisters.error_cases
  case created =>
    intro s id r h? se' hs hok
    have hregisters := Step.creation_registers hs se.stack
    rw [on_of_step_eq_ok hok] at hregisters
    obtain ⟨-, hfree, hhandle, hstack⟩ := hregisters.ok_cases
    have hnone : se.stack.resources.contains (keptOf id) = false := by simpa using hfree
    refine ⟨hhandle, by simpa [Table.contains] using hnone, hstack, ?_⟩
    rw [hstack]
    exact Table.size_put r hnone
  case output =>
    intro s id o hs
    rw [exists_ok_iff_of_registers (Step.output_registers hs se.stack),
      not_contains_iff h.outputs, keptOf_ne_empty_iff, true_and]
  case outputError =>
    intro s id o e hs he
    have hregisters := Step.output_registers hs se.stack
    rw [on_of_step_eq_error he] at hregisters
    simpa only [keptOf_ne_empty_iff, true_and] using hregisters.error_cases
  case added =>
    intro s id o h? se' hs hok
    have hregisters := Step.output_registers hs se.stack
    rw [on_of_step_eq_ok hok] at hregisters
    obtain ⟨-, hfree, -, hstack⟩ := hregisters.ok_cases
    have hnone : se.stack.outputs.contains (keptOf id) = false := by simpa using hfree
    exact ⟨by simpa [Table.contains] using hnone, hstack⟩
  case failure =>
    intro s e he
    exact next_eq_self_of_error he
  case imports =>
    intro s hs
    obtain ⟨outcome, houtcome⟩ := Step.import_keeps hs se.stack
    rw [stack_next, houtcome]
  case environment =>
    intro account region
    rw [stack_next, Step.environment_keeps]

/-- What has been created is found under the logical id of its handle, however the
run goes on. -/
theorem get?_run_of_created
    {name : String} {before : List Step} {r : Resource} {handle : AnyHandle}
    (hs : s.creation? = some (id, r))
    (hok : ((empty name).run before).step s = .ok (some handle, se')) (after : List Step) :
    ∃ key, handle.logicalId = some key ∧
      ((empty name).run (before ++ s :: after)).stack.resources.get? key = some r := by
  have hlawful := (recorded_run name before).lawful
  obtain ⟨hhandle, -⟩ := hlawful.created s id r _ se' hs hok
  have hdone : s ∈ (empty name).succeeding (before ++ s :: after) := mem_succeeding hok
  refine ⟨keptOf id, ?_, ?_⟩
  · rw [Option.some.inj hhandle]
    exact r.logicalId_handle (keptOf id)
  · have hrecorded := recorded_run name (before ++ s :: after)
    exact hrecorded.resources.get?_eq_some_iff.2
      (Step.mem_registered_iff.2 ⟨s, hdone, id, hs, rfl⟩)

/-- Whatever has been done with a stack, the next step succeeds, fails and changes
the stack by the same laws; and what has been created stays as it is until the end
of the run. -/
theorem run_lawful
    (name : String) (steps : List Step) :
    ((empty name).run steps).Lawful ((empty name).succeeding steps) ∧
      ∀ before s after id r handle se',
        steps = before ++ s :: after → s.creation? = some (id, r) →
        ((empty name).run before).step s = .ok (some handle, se') →
        ∃ key, handle.logicalId = some key ∧
          ((empty name).run steps).stack.resources.get? key = some r ∧
          ((empty name).run steps).stack.template.record? key = some r.json := by
  refine ⟨(recorded_run name steps).lawful, ?_⟩
  rintro before s after id r handle se' rfl hs hok
  obtain ⟨key, hkey, hget⟩ := get?_run_of_created hs hok after
  refine ⟨key, hkey, hget, ?_⟩
  rw [Stack.record?_template, hget]
  rfl

example :
    ((empty "s").run
      [.createProject "my-project" ⟨"a", none, none, Table.empty⟩,
        .createProject "myproject" ⟨"b", none, none, Table.empty⟩]).stack.resources.entries =
      [("myproject", .project ⟨"a", none, none, Table.empty⟩)] := by
  decide

end Laws

end Session

/-- A definition has as many parts as its kind asks for. -/
def Resource.MeetsCounts : Resource → Prop
  | .project _ => True
  | .feature f => f.variations ≠ []
  | .experiment e => e.goals.length ≤ 3
  | .launch l => l.groups.length ≤ 5

namespace Session

/-- A feature with a variation that is not a number. -/
def numberless : Step :=
  .createFeature "a" (.text "p")
    ⟨"f", .literal "p", [⟨none, .double ⟨0x7FF8000000000000⟩⟩], [], none, none, none, Table.empty⟩

/-- For a creation to succeed it is not enough that the definition has as many parts
as its kind asks for. -/
theorem counts_do_not_suffice :
    ¬ ∀ (name : String) (steps : List Step) (s : Step) (id : String) (r : Resource),
      s.creation? = some (id, r) →
        ((∃ h? se', ((empty name).run steps).step s = .ok (h?, se')) ↔
          (r.MeetsCounts ∧ ∃ c ∈ id.toList, c.isAlphanum) ∧
            ∀ s' ∈ (empty name).succeeding steps, ∀ id' r', s'.creation? = some (id', r') →
              keptOf id' ≠ keptOf id) := by
  intro h
  have hrefused : (empty "s").step numberless = .error (.nonFinite "f" "") := by rfl
  obtain ⟨h?, se', hok⟩ := (h "s" [] numberless "a" _ rfl).2
    ⟨⟨List.cons_ne_nil _ _, 'a', by decide, rfl⟩, fun s' hs' => (by cases hs')⟩
  have hok : (empty "s").step numberless = .ok (h?, se') := hok
  rw [hrefused] at hok
  cases hok

end Session
end FlagStack
