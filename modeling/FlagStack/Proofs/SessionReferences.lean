import FlagStack.Proofs.ReferenceClosure
import FlagStack.Proofs.SessionHandles

/-!
# References within a session

In a disciplined run an attribute gets into a record or an output by a handle only,
and a handle shows an attribute only of what has been registered.  Since a resource
stays once it has been registered, every attribute leads to a resource at any time.

**Results.**
* `exists_resource_of_attribute`: the resource that the attribute of a handle leads
  to.
* `grounded_run`: what the references of a session lead to.
-/

namespace FlagStack

open Json

/-- The tokens that the records and the outputs of a stack hold. -/
def Stack.tokens (s : Stack) : List Token :=
  s.resources.entries.filterMap (fun e => e.2.project?) ++
    s.outputs.entries.map fun e => e.2.value

/-- A step that adds an output takes the resource name of a handle. -/
def Step.takesHandle : Step → Bool
  | .expose _ (.token _) _ => false
  | _ => true

namespace Session

/-- The references of a session lead to what it has registered. -/
structure Grounded (se : Session) (done : List Step) (log : List (Step × AnyHandle)) : Prop where
  /-- An attribute is the resource name of a resource. -/
  tokens : ∀ id name, .attribute id name ∈ se.stack.tokens →
    name = "Arn" ∧ se.stack.resources.contains id
  template : ∀ v ∈ se.stack.template.attributes,
    ∃ id, v = .array [.string id, .string "Arn"] ∧ (se.stack.template.record? id).isSome
  /-- A record that refers to its project by an attribute has been created with the
  handle of a project, and leads to the record of this project. -/
  projects : ∀ key r id name,
    se.stack.resources.get? key = some r → r.project? = some (.attribute id name) →
    ∃ s ∈ done, ∃ given, s.creation? = some (given, r) ∧ keptOf given = key ∧
      ∃ h, .project h ∈ s.uses ∧ .project h ∈ se.handles ∧ h.arn = .attribute id name ∧
        ∃ props, se.stack.template.HasRecord .project id props ∧
          props.textAt? "Name" = some h.name
  handles : se.handles = log.map Prod.snd
  /-- A handle shows an attribute if it has been created, and otherwise it has been
  imported. -/
  kinds : ∀ s h, (s, h) ∈ log →
    s ∈ done ∧ (h.arn.isUnresolved ↔ s.creation?.isSome) ∧ (h.isImported ↔ s.isImport) ∧
      (h.isImported ↔ ¬ s.creation?.isSome)

section References

variable {se : Session} {done : List Step} {log : List (Step × AnyHandle)}

/-- The attribute of a handle leads to the resource that has been registered when the
handle was obtained. -/
theorem exists_resource_of_attribute
    (hrecorded : se.Recorded done) (hlog : se.Obtained done log)
    {h : AnyHandle} (hmem : h ∈ se.handles)
    {id name : String} (harn : h.arn = .attribute id name) :
    name = "Arn" ∧ ∃ r, se.stack.resources.get? id = some r ∧ h = r.handle id := by
  rw [hlog.handles] at hmem
  obtain ⟨⟨s, h⟩, hlogged, rfl⟩ := List.mem_map.1 hmem
  cases hs : s.creation? with
  | none =>
      obtain ⟨text, htext⟩ := (hlog.imported s h hlogged hs).2.arn
      cases htext.symm.trans harn
  | some creation =>
      obtain ⟨given, r⟩ := creation
      obtain rfl := hlog.created s h given r hlogged hs
      cases (r.arn_handle (keptOf given)).symm.trans harn
      refine ⟨rfl, r, ?_, rfl⟩
      have hdone := hlog.recorded s _ hlogged
      exact hrecorded.resources.get?_eq_some_iff.2
        (Step.mem_registered_iff.2 ⟨s, hdone, given, hs, rfl⟩)

/-- A definition that refers to its project by an attribute has been given a
handle. -/
theorem exists_handle_of_creation
    {s : Step} {given : String} {r : Resource} (hs : s.creation? = some (given, r))
    {id name : String} (hproject : r.project? = some (.attribute id name)) :
    ∃ h, .project h ∈ s.uses ∧ h.arn = .attribute id name := by
  have hsource : ∀ source : ProjectSource, source.token = .attribute id name →
      ∃ h, .project h ∈ source.handles ∧ h.arn = .attribute id name := by
    intro source hsource
    cases source with
    | text text => cases hsource
    | handle h => exact ⟨h, List.mem_singleton_self _, hsource⟩
  cases s with
  | createFeature given source f =>
      cases hs
      exact hsource source (Option.some.inj hproject)
  | createExperiment given source e =>
      cases hs
      exact hsource source (Option.some.inj hproject)
  | createLaunch given source l =>
      cases hs
      exact hsource source (Option.some.inj hproject)
  | createProject given p =>
      cases hs
      cases hproject
  | _ => cases hs

theorem exists_handle_of_output
    {s : Step} (htakes : s.takesHandle) {given : String} {o : Output}
    (hs : s.output? = some (given, o)) :
    ∃ h ∈ s.uses, h.arn = o.value := by
  cases s with
  | expose given source description =>
      cases hs
      cases source with
      | token t => cases htakes
      | handle h => exact ⟨h, List.mem_singleton_self _, rfl⟩
  | _ => cases hs

/-- An attribute of a resource or an output is that of a handle. -/
theorem exists_handle_of_mem_tokens
    (hrecorded : se.Recorded done) (hlog : se.Obtained done log)
    (htakes : ∀ s ∈ done, s.takesHandle)
    {id name : String} (hmem : .attribute id name ∈ se.stack.tokens) :
    ∃ h ∈ se.handles, h.arn = .attribute id name := by
  rcases List.mem_append.1 hmem with hmem | hmem
  · obtain ⟨⟨key, r⟩, hr, hproject⟩ := List.mem_filterMap.1 hmem
    have hget := Table.get?_eq_some_iff.2 hr
    obtain ⟨s, hs, given, hcreation, -⟩ :=
      Step.mem_registered_iff.1 (hrecorded.resources.get?_eq_some_iff.1 hget)
    obtain ⟨h, huses, harn⟩ := exists_handle_of_creation hcreation hproject
    exact ⟨_, hlog.uses s hs _ huses, harn⟩
  · obtain ⟨⟨key, o⟩, ho, hvalue⟩ := List.mem_map.1 hmem
    have hget := Table.get?_eq_some_iff.2 ho
    obtain ⟨s, hs, given, houtput, -⟩ :=
      Step.mem_registered_iff.1 (hrecorded.outputs.get?_eq_some_iff.1 hget)
    obtain ⟨h, huses, harn⟩ := exists_handle_of_output (htakes s hs) houtput
    exact ⟨h, hlog.uses s hs h huses, harn.trans hvalue⟩

theorem mem_tokens_of_mem_attributes
    {s : Stack} (hkeys : ∀ key, s.resources.contains key ∨ s.outputs.contains key → IsLogicalId key)
    {v : Json} (hv : v ∈ s.template.attributes) :
    ∃ id name, .attribute id name ∈ s.tokens ∧ v = .array [.string id, .string name] := by
  have hreserved : ¬ IsLogicalId "Fn::GetAtt" := fun h => absurd h.2 (by decide)
  have hresources : ∀ id ∈ s.resources.keys, id ≠ "Fn::GetAtt" := by
    rintro id hid rfl
    exact hreserved (hkeys _ (.inl (Table.contains_iff_mem_keys.2 hid)))
  have houtputs : ∀ id ∈ s.outputs.keys, id ≠ "Fn::GetAtt" := by
    rintro id hid rfl
    exact hreserved (hkeys _ (.inr (Table.contains_iff_mem_keys.2 hid)))
  have hshown : ∀ t : Token, v ∈ t.json.attributes →
      ∃ id name, t = .attribute id name ∧ v = .array [.string id, .string name] := by
    intro t ht
    cases t with
    | literal text => cases ht
    | «attribute» id name =>
        rw [Token.attributes_attribute, List.mem_singleton] at ht
        exact ⟨id, name, rfl, ht⟩
  rcases Stack.mem_attributes_template hresources houtputs hv with
    ⟨key, r, t, hr, hproject, ht⟩ | ⟨key, o, ho, ht⟩
  · obtain ⟨id, name, rfl, rfl⟩ := hshown t ht
    refine ⟨id, name, List.mem_append_left _ ?_, rfl⟩
    exact List.mem_filterMap.2 ⟨(key, r), Table.get?_eq_some_iff.1 hr, hproject⟩
  · obtain ⟨id, name, hvalue, rfl⟩ := hshown o.value ht
    refine ⟨id, name, List.mem_append_right _ ?_, rfl⟩
    exact List.mem_map.2 ⟨(key, o), Table.get?_eq_some_iff.1 ho, hvalue⟩

theorem hasRecord_of_get?
    {s : Stack} {id : String} {r : Resource} (h : s.resources.get? id = some r) :
    s.template.HasRecord r.kind id r.properties := by
  refine ⟨r.json, ?_, r.member?_type, r.member?_properties⟩
  rw [Stack.record?_template, h]
  rfl

theorem grounded
    (hrecorded : se.Recorded done) (hlog : se.Obtained done log)
    (htakes : ∀ s ∈ done, s.takesHandle) :
    se.Grounded done log := by
  have htokens : ∀ id name, .attribute id name ∈ se.stack.tokens →
      name = "Arn" ∧ ∃ r, se.stack.resources.get? id = some r := by
    intro id name hmem
    obtain ⟨h, hh, harn⟩ := exists_handle_of_mem_tokens hrecorded hlog htakes hmem
    obtain ⟨hname, r, hr, -⟩ := exists_resource_of_attribute hrecorded hlog hh harn
    exact ⟨hname, r, hr⟩
  constructor
  case tokens =>
    intro id name hmem
    obtain ⟨hname, hr⟩ := htokens id name hmem
    exact ⟨hname, Table.contains_eq_true_iff.2 hr⟩
  case template =>
    intro v hv
    obtain ⟨id, name, hmem, rfl⟩ := mem_tokens_of_mem_attributes hrecorded.lawful.keys hv
    obtain ⟨rfl, r, hr⟩ := htokens id name hmem
    refine ⟨id, rfl, ?_⟩
    rw [Stack.record?_template, hr]
    rfl
  case projects =>
    intro key r id name hr hproject
    obtain ⟨s, hs, given, hcreation, hkey⟩ :=
      Step.mem_registered_iff.1 (hrecorded.resources.get?_eq_some_iff.1 hr)
    obtain ⟨h, huses, harn⟩ := exists_handle_of_creation hcreation hproject
    have hmem := hlog.uses s hs _ huses
    obtain ⟨-, r', hr', hhandle⟩ := exists_resource_of_attribute hrecorded hlog hmem harn
    obtain ⟨p, rfl, rfl⟩ := Resource.exists_project_of_handle_eq hhandle
    refine ⟨s, hs, given, hcreation, hkey, _, huses, hmem, harn, p.properties, ?_, ?_⟩
    · exact hasRecord_of_get? hr'
    · exact Resource.textAt?_name (.project p)
  case handles =>
    exact hlog.handles
  case kinds =>
    intro s h hmem
    have hcreated := hlog.isUnresolved_arn_iff hmem
    have himported := hlog.isImported_iff hmem
    refine ⟨hlog.recorded s h hmem, hcreated, ?_, ?_⟩
    · rw [himported]
      constructor
      · intro hnone
        exact (hlog.imported s h hmem hnone).1
      · intro himport
        cases s <;> first | rfl | cases himport
    · rw [himported]
      simp

/-- In a run in which definitions and outputs take handles that have been obtained
before, every attribute of the stack is the resource name of one of its resources,
every record leads to the project that it has been created with, and a handle shows
an attribute just if it has been created. -/
theorem grounded_run
    (name : String) {steps : List Step} (hsteps : (empty name).Disciplined steps)
    (htakes : ∀ s ∈ steps, s.takesHandle) :
    ((empty name).run steps).Grounded
      ((empty name).succeeding steps) ((empty name).obtained steps) := by
  refine grounded (recorded_run name steps) (obtained_run name hsteps) ?_
  intro s hs
  exact htakes s ((succeeding_sublist _ _).mem hs)

/-- A feature of a project that has been created and a launch of one that has been
imported, with a duplicate in between. -/
def mixed : List Step :=
  [.createProject "my-project" ⟨"p", none, none, Table.empty⟩,
    .projectOfName "other",
    .createFeature "f" (.handle ⟨"p", .arnOf "myproject", some "myproject"⟩)
      ⟨"f", .literal "", [⟨none, .boolean true⟩], [], none, none, none, Table.empty⟩,
    .createProject "myproject" ⟨"q", none, none, Table.empty⟩,
    .setEnvironment "1" "eu-west-1",
    .createLaunch "l"
      (.handle ⟨"other", .literal "arn:aws:evidently:us-east-1:123456789012:project/other", none⟩)
      ⟨"l", .literal "", [], [], none, none, Table.empty⟩,
    .expose "arn"
      (.handle (.feature ⟨"f", .arnOf "f", some (.arnOf "myproject"), [⟨none, .boolean true⟩],
        some "f"⟩))
      none]

theorem mixed_grounded :
    ((empty "s").Disciplined mixed ∧ ∀ s ∈ mixed, s.takesHandle) ∧
      ((empty "s").run mixed).Grounded
        ((empty "s").succeeding mixed) ((empty "s").obtained mixed) := by
  have hsteps : (empty "s").Disciplined mixed := by decide
  have htakes : ∀ s ∈ mixed, s.takesHandle := by decide
  exact ⟨⟨hsteps, htakes⟩, grounded_run "s" hsteps htakes⟩

end References

end Session
end FlagStack
