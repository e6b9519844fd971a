import FlagStack.Proofs.Tables
import FlagStack.Proofs.TemplateAccess
import FlagStack.Stack

/-!
# What templates show

The records of a template are the resources of the stack, and each shows the parts
of its definition under their keys.

**Results.**
* `record?_template`: what stands under a logical id.
* `mem_attributes_template`: attributes stand in the references of records to their
  projects and in the values of outputs, and nowhere else.
-/

namespace FlagStack

open Json

section Properties

variable {α : Type} {key : String}

/-- A list that is left out when it is empty is found as it is. -/
theorem itemsAt_nonEmptyProperty
    {v : Json} {render : α → Json} {l : List α}
    (h : v.member? key = nonEmptyProperty render l) :
    v.itemsAt key = l.map render := by
  rw [itemsAt, h, nonEmptyProperty]
  cases l <;> rfl

@[simp] theorem attributesOf_nonEmptyProperty
    (render : α → Json) (l : List α) :
    attributesOf (nonEmptyProperty render l) = l.flatMap fun a => (render a).attributes := by
  rw [nonEmptyProperty]
  cases l with
  | nil => rfl
  | cons a rest => simp [List.flatMap_map]

@[simp] theorem Tags.attributesOf_property
    (tags : Tags) :
    attributesOf tags.property = [] := by
  rw [Tags.property]
  split
  · rfl
  · simp [List.flatMap_map]

end Properties

section Parts

theorem Token.attributes_attribute
    (logicalId name : String) :
    (Token.attribute logicalId name).json.attributes =
      [.array [.string logicalId, .string name]] := by
  simp [Token.json, attributes_object]

@[simp] theorem Value.attributes_json
    (v : Value) :
    v.json.attributes = [] := by
  cases v with
  | boolean b => rfl
  | double x =>
      rw [Value.json, ofBinary64]
      split <;> rfl
  | long n => rfl
  | string s => rfl

@[simp] theorem Variation.attributes_properties
    (v : Variation) :
    v.properties.attributes = [] := by
  obtain ⟨label, value⟩ := v
  cases value <;> simp [Variation.properties]

@[simp] theorem Treatment.attributes_properties
    (t : Treatment) :
    t.properties.attributes = [] := by
  simp [Treatment.properties]

@[simp] theorem Split.attributes_properties
    (s : Split) :
    s.properties.attributes = [] := by
  simp [Split.properties, TreatmentWeight.properties]

@[simp] theorem Goal.attributes_properties
    (g : Goal) :
    g.properties.attributes = [] := by
  simp [Goal.properties]

@[simp] theorem Group.attributes_properties
    (g : Group) :
    g.properties.attributes = [] := by
  simp [Group.properties]

@[simp] theorem LaunchStep.attributes_properties
    (s : LaunchStep) :
    s.properties.attributes = [] := by
  simp [LaunchStep.properties, GroupWeight.properties, List.flatMap_map]

@[simp] theorem Delivery.attributes_properties
    (d : Delivery) :
    d.properties.attributes = [] := by
  cases d with
  | logGroup name => simp [Delivery.properties]
  | bucket b => simp [Delivery.properties, Bucket.properties]

end Parts

namespace Resource

/-- The properties of a resource refer to an attribute in the reference to its
project only. -/
theorem attributes_properties
    (r : Resource) :
    r.properties.attributes = attributesOf (r.project?.map Token.json) := by
  cases r with
  | project p => simp [properties, Project.properties, project?]
  | feature f =>
      simp [properties, Feature.properties, Override.properties, project?,
        List.flatMap_map]
  | experiment e => simp [properties, Experiment.properties, project?, List.flatMap_map]
  | launch l => simp [properties, Launch.properties, project?, List.flatMap_map]

theorem attributes_json
    (r : Resource) :
    r.json.attributes = attributesOf (r.project?.map Token.json) := by
  rw [← attributes_properties, json]
  simp [attributes_object]

/-- The reference to the project is shown where there is one. -/
theorem member?_project
    (r : Resource) :
    r.properties.member? "Project" = r.project?.map Token.json := by
  cases r <;>
    simp [properties, Project.properties, Feature.properties, Experiment.properties,
      Launch.properties, project?]

theorem textAt?_name
    (r : Resource) :
    r.properties.textAt? "Name" = some r.name := by
  rw [textAt?_eq_some_iff]
  cases r <;>
    simp [properties, Project.properties, Feature.properties, Experiment.properties,
      Launch.properties, name]

theorem member?_type
    (r : Resource) :
    r.json.member? "Type" = some (.string r.kind.resourceType) := by
  simp [json, List.lookup_cons]

theorem member?_properties
    (r : Resource) :
    r.json.member? "Properties" = some r.properties := by
  simp [json]

end Resource

namespace Stack

variable {s : Stack} {v : Json}

/-- The records of a template are the resources of the stack. -/
theorem record?_template
    (s : Stack) (id : String) :
    s.template.record? id = (s.resources.get? id).map Resource.json := by
  simp [record?, template]

/-- The attributes of a table are those of its values. -/
theorem mem_attributes_ofTable_map
    {α : Type} {t : Table α} {f : α → Json} (hkeys : ∀ key ∈ t.keys, key ≠ "Fn::GetAtt")
    (h : v ∈ (ofTable (t.map f)).attributes) :
    ∃ key a, t.get? key = some a ∧ v ∈ (f a).attributes := by
  rw [ofTable, attributes_object, List.mem_flatMap] at h
  obtain ⟨m, hm, hv⟩ := h
  obtain ⟨⟨key, a⟩, ha, rfl⟩ := List.mem_map.1 hm
  have hkey : key ≠ "Fn::GetAtt" := hkeys key (List.mem_map_of_mem ha)
  refine ⟨key, a, Table.get?_eq_some_iff.2 ha, ?_⟩
  simpa [hkey] using hv

/-- Attributes stand in the references of records to their projects and in the
values of outputs, and nowhere else. -/
theorem mem_attributes_template
    (hresources : ∀ id ∈ s.resources.keys, id ≠ "Fn::GetAtt")
    (houtputs : ∀ id ∈ s.outputs.keys, id ≠ "Fn::GetAtt")
    (h : v ∈ s.template.attributes) :
    (∃ id r t, s.resources.get? id = some r ∧ r.project? = some t ∧ v ∈ t.json.attributes) ∨
      ∃ id o, s.outputs.get? id = some o ∧ v ∈ o.value.json.attributes := by
  have hsplit : v ∈ (ofTable (s.outputs.map Output.json)).attributes ∨
      v ∈ (ofTable (s.resources.map Resource.json)).attributes := by
    by_cases hempty : s.outputs.isEmpty
    · rw [template, if_pos hempty] at h
      exact .inr (by simpa using h)
    · rw [template, if_neg hempty] at h
      simpa using h
  rcases hsplit with hv | hv
  · obtain ⟨id, o, ho, hv⟩ := mem_attributes_ofTable_map houtputs hv
    exact .inr ⟨id, o, ho, by simpa [Output.json] using hv⟩
  · obtain ⟨id, r, hr, hv⟩ := mem_attributes_ofTable_map hresources hv
    rw [Resource.attributes_json] at hv
    cases hproject : r.project? with
    | none =>
        rw [hproject] at hv
        cases hv
    | some t =>
        rw [hproject, Option.map_some, attributesOf_some] at hv
        exact .inl ⟨id, r, t, hr, hproject, hv⟩

end Stack
end FlagStack
