import FlagStack.Proofs.PrintedTimestamps
import FlagStack.Proofs.Registration
import FlagStack.Proofs.Rendering
import FlagStack.Proofs.ShownProperties

/-!
# Faithful templates

A template shows every resource of its stack under the properties of its kind.  What
it shows of two definitions of one kind differs if the definitions do, except that a
launch without a description looks like one with the empty description.

**Results.**
* `Resource.shown_properties`: every kind shows its properties.
* `Resource.described_eq_of_shown`: one value shows one definition only.
* `Stack.rendering_loses_nothing`: the records of templates, and definitions that
  render the same.
-/

namespace FlagStack

open Json

namespace Resource

/-- The properties of each kind. -/
def Shown : Resource → Json → Prop
  | .project p => p.Shown
  | .feature f => f.Shown
  | .experiment e => e.Shown
  | .launch l => l.Shown

/-- All numbers among the variations of a feature have a JSON form. -/
def IsFinite : Resource → Prop
  | .feature f => ∀ v ∈ f.variations, v.value.isNonFinite = false
  | .project _ | .experiment _ | .launch _ => True

/-- The start times of the steps of a launch. -/
def starts : Resource → List Instant
  | .launch l => l.steps.map LaunchStep.start
  | .project _ | .feature _ | .experiment _ => []

/-- The resource with the description that it shows, which differs from its own if it
is a launch without one. -/
def described : Resource → Resource
  | .launch l => .launch l.described
  | .project p => .project p
  | .feature f => .feature f
  | .experiment e => .experiment e

variable {r r' : Resource}

theorem shown_properties
    (h : r.IsFinite) :
    r.Shown r.properties := by
  cases r with
  | project p => exact p.shown_properties
  | feature f => exact Feature.shown_properties h
  | experiment e => exact e.shown_properties
  | launch l => exact l.shown_properties

theorem properties_described
    (r : Resource) :
    r.described.properties = r.properties := by
  cases r <;> rfl

/-- One value shows one definition only, if stamps tell start times apart. -/
theorem described_eq_of_shown
    {v : Json} (hkind : r.kind = r'.kind)
    (hstarts : ∀ t ∈ r.starts, ∀ t' ∈ r'.starts, t.stamp = t'.stamp → t = t')
    (h : r.Shown v) (h' : r'.Shown v) :
    r.described = r'.described := by
  cases r with
  | project p =>
      cases r' with
      | project p' => exact congrArg Resource.project (Project.leftUnique_shown h h')
      | feature | experiment | launch => cases hkind
  | feature f =>
      cases r' with
      | feature f' => exact congrArg Resource.feature (Feature.leftUnique_shown h h')
      | project | experiment | launch => cases hkind
  | experiment e =>
      cases r' with
      | experiment e' => exact congrArg Resource.experiment (Experiment.leftUnique_shown h h')
      | project | feature | launch => cases hkind
  | launch l =>
      cases r' with
      | launch l' =>
          refine congrArg Resource.launch (Launch.described_eq_of_shown ?_ h h')
          intro s hs s' hs'
          exact hstarts _ (List.mem_map_of_mem hs) _ (List.mem_map_of_mem hs')
      | project | feature | experiment => cases hkind

theorem isFinite_of_admissible
    (h : r.Admissible) :
    r.IsFinite := by
  cases r with
  | feature f => exact fun v hv => Bool.eq_false_iff.2 (h.2 v hv)
  | project | experiment | launch => trivial

end Resource

namespace Stack

/-- A resource that was created stands in the stack as it was defined. -/
theorem get?_of_create
    {s s' : Stack} {id key : String} {r : Resource}
    (h : (create id r).on s = (.ok key, s')) :
    s'.resources.get? key = some r ∧ r.IsFinite := by
  rw [on_create] at h
  cases hcheck : r.check with
  | error e =>
      rw [hcheck] at h
      cases h
  | ok u =>
      have hfinite := Resource.isFinite_of_admissible (r.check_eq_ok_iff.1 hcheck)
      rw [hcheck] at h
      simp only [on_register] at h
      split_ifs at h
      · cases h
      · cases h
      · cases h
        exact ⟨Table.get?_put_self _ _ _, hfinite⟩

/-- The properties of the record under a logical id are those of its kind. -/
theorem exists_shown_template
    {s : Stack} {id : String} {r : Resource} (hr : s.resources.get? id = some r)
    (hfinite : r.IsFinite) :
    ∃ v, (s.template.record? id).bind (member? "Properties") = some v ∧ r.Shown v := by
  refine ⟨r.properties, ?_, Resource.shown_properties hfinite⟩
  rw [record?_template, hr, Option.map_some, Option.bind_some, Resource.member?_properties]

/-- Templates show each resource as it was defined, with the properties of its kind;
and two definitions of one kind that render the same are equal, except that launches
with no description and with the empty one are not told apart. -/
theorem rendering_loses_nothing :
    (∀ (s s' : Stack) (id key : String) (r : Resource), (create id r).on s = (.ok key, s') →
      s'.resources.get? key = some r ∧ r.IsFinite) ∧
    (∀ (s : Stack) (id : String) (r : Resource), s.resources.get? id = some r → r.IsFinite →
      ∃ v, (s.template.record? id).bind (member? "Properties") = some v ∧ r.Shown v) ∧
    ∀ r r' : Resource, r.kind = r'.kind → r.IsFinite → r'.IsFinite →
      (∀ t ∈ r.starts, ∀ t' ∈ r'.starts, t.stamp = t'.stamp → t = t') →
      (r.properties = r'.properties ↔ r.described = r'.described) := by
  refine ⟨fun _ _ _ _ _ => get?_of_create, fun _ _ _ => exists_shown_template, ?_⟩
  intro r r' hkind hfinite hfinite' hstarts
  constructor
  · intro hsame
    have hshown' : r'.Shown r.properties := hsame ▸ Resource.shown_properties hfinite'
    exact Resource.described_eq_of_shown hkind hstarts (Resource.shown_properties hfinite) hshown'
  · intro hdescribed
    rw [← r.properties_described, hdescribed, r'.properties_described]

/-- Two launches, without a description and with the empty one, are registered as they
are, and render the same although they differ. -/
theorem rendering_loses_nothing_undescribed :
    let steps : List LaunchStep := [⟨[⟨"Some", 20000⟩], ⟨0, 0⟩⟩, ⟨[⟨"All", 100000⟩], ⟨86400, 0⟩⟩]
    let bare : Launch := ⟨"Spring", .literal "Site", [], steps, none, none, Table.empty⟩
    let r : Resource := .launch bare
    let r' : Resource := .launch { bare with description := some "" }
    let s : Stack := ((create "Spring" r).on (empty "Site")).2
    (∃ v, (s.template.record? "Spring").bind (member? "Properties") = some v ∧ r.Shown v) ∧
      r.properties = r'.properties ∧ r.described = r'.described ∧ r ≠ r' := by
  intro steps bare r r' s
  have hcreate : (create "Spring" r).on (empty "Site") = (.ok "Spring", s) := by
    rfl
  obtain ⟨hget, hfinite⟩ := rendering_loses_nothing.1 _ _ _ _ _ hcreate
  have hreadable : ∀ t ∈ r.starts, t.Readable := by
    intro t ht
    rcases List.mem_pair.1 ht with rfl | rfl
    · exact ⟨by decide, by decide, by decide, by decide⟩
    · exact ⟨by decide, by decide, by decide, by decide⟩
  have hstarts : ∀ t ∈ r.starts, ∀ t' ∈ r'.starts, t.stamp = t'.stamp → t = t' :=
    fun t ht t' ht' => Timestamp.eq_of_stamp_eq (hreadable t ht) (hreadable t' ht')
  have hdescribed : r.described = r'.described := rfl
  have hsame := (rendering_loses_nothing.2.2 r r' rfl hfinite trivial hstarts).2 hdescribed
  exact ⟨rendering_loses_nothing.2.1 s "Spring" r hget hfinite, hsame, hdescribed,
    by simp [r, r', bare]⟩

end Stack
end FlagStack
