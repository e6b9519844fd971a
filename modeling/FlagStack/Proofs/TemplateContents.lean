import FlagStack.Proofs.Decoding
import FlagStack.Proofs.Rendering
import FlagStack.Proofs.SynthesizedRecords

/-!
# What a synthesized template contains

The records of a synthesized template are the definitions of the config, one for
one, and every attribute that the template refers to is that of one of its
records.

**Results.**
* `Placed.record?_template`: the record of a definition.
* `Placed.mem_attributes_template`: an attribute in the template is the resource name
  of a definition.
-/

namespace FlagStack
namespace Config

/-- How a record shows a reference to a project by name: as the resource name of
the project that the config defines under the name, or else as the name. -/
inductive ShowsProject (c : Config) (idOf : Resource → String) (name : String) : Json → Prop
  | defined {p : Project} (hp : p ∈ c.projects) (hname : p.name = name) :
      ShowsProject c idOf name
        (.object [("Fn::GetAtt", .array [.string (idOf (.project p)), .string "Arn"])])
  | external (h : ∀ p ∈ c.projects, p.name ≠ name) : ShowsProject c idOf name (.string name)

section Contents

variable {c : Config} {s : Stack} {idOf : Resource → String}

theorem showsProject_projectToken
    (hnames : (c.projects.map Project.name).Nodup) (name : String) :
    c.ShowsProject idOf name (c.projectToken idOf (.literal name)).json := by
  by_cases hdefined : ∃ p ∈ c.projects, p.name = name
  · obtain ⟨p, hp, rfl⟩ := hdefined
    rw [projectToken_of_mem hnames hp]
    exact .defined hp rfl
  · have hexternal : ∀ p ∈ c.projects, p.name ≠ name := by simpa using hdefined
    rw [projectToken_of_external hexternal]
    exact .external hexternal

/-- Where an attribute is shown, it is the resource name of a project. -/
theorem ShowsProject.exists_project
    {name : String} {v w : Json} (h : c.ShowsProject idOf name v) (hw : w ∈ v.attributes) :
    ∃ p ∈ c.projects, w = .array [.string (idOf (.project p)), .string "Arn"] := by
  cases h with
  | defined hp _ =>
      rw [Json.attributes_object] at hw
      exact ⟨_, hp, by simpa using hw⟩
  | external _ => cases hw

namespace Placed

variable (h : c.Placed s idOf)
include h

theorem get?_resources
    {r : Resource} (hr : r ∈ c.definitions) :
    s.resources.get? (idOf r) = some (r.mapProject (c.projectToken idOf)) :=
  (h.records _ _).2 ⟨r, hr, rfl, rfl⟩

/-- The record of a definition, as the template has it. -/
theorem record?_template
    {r : Resource} (hr : r ∈ c.definitions) :
    s.template.record? (idOf r) =
      some (.object
        [("Properties", (r.mapProject (c.projectToken idOf)).properties),
          ("Type", .string ("AWS::Evidently::" ++ r.kind.label))]) := by
  rw [Stack.record?_template, h.get?_resources hr, Option.map_some, Resource.json,
    Resource.kind_mapProject]
  rfl

theorem keys_resources
    {id : String} (hid : id ∈ s.resources.keys) :
    ∃ r ∈ c.definitions, idOf r = id := by
  obtain ⟨record, hrecord⟩ :=
    Table.contains_eq_true_iff.1 (Table.contains_iff_mem_keys.2 hid)
  obtain ⟨r, hr, hid, -⟩ := (h.records id record).1 hrecord
  exact ⟨r, hr, hid⟩

theorem keys_outputs
    {id : String} (hid : id ∈ s.outputs.keys) :
    ∃ r ∈ c.definitions, id = idOf r ++ "Arn" := by
  obtain ⟨o, ho⟩ := Table.contains_eq_true_iff.1 (Table.contains_iff_mem_keys.2 hid)
  obtain ⟨r, hr, hkey, -⟩ := h.outputs id o ho
  exact ⟨r, hr, hkey⟩

/-- The only attributes in the template are resource names of definitions, if the
config refers to no others. -/
theorem mem_attributes_template
    (hnames : (c.projects.map Project.name).Nodup)
    (hliteral : ∀ r ∈ c.definitions, ∀ t, r.project? = some t → ∃ name, t = .literal name)
    {v : Json} (hv : v ∈ s.template.attributes) :
    ∃ r ∈ c.definitions, v = .array [.string (idOf r), .string "Arn"] := by
  have hreserved : ¬ Alphanumeric "Fn::GetAtt" := by decide
  have hresources : ∀ id ∈ s.resources.keys, id ≠ "Fn::GetAtt" := by
    rintro id hid rfl
    obtain ⟨r, hr, hkey⟩ := h.keys_resources hid
    exact hreserved (hkey ▸ (h.logical r hr).2)
  have houtputs : ∀ id ∈ s.outputs.keys, id ≠ "Fn::GetAtt" := by
    rintro id hid rfl
    obtain ⟨r, hr, hkey⟩ := h.keys_outputs hid
    have hlogical := isLogicalId_append (h.logical r hr) alphanumeric_arn
    exact hreserved (hkey ▸ hlogical.2)
  rcases Stack.mem_attributes_template hresources houtputs hv with
    ⟨id, record, t, hrecord, ht, hv⟩ | ⟨id, o, ho, hv⟩
  · obtain ⟨r, hr, -, rfl⟩ := (h.records id record).1 hrecord
    rw [Resource.project?_mapProject] at ht
    obtain ⟨t', ht', rfl⟩ := Option.map_eq_some_iff.1 ht
    obtain ⟨name, rfl⟩ := hliteral r hr t' ht'
    obtain ⟨p, hp, hv⟩ := (showsProject_projectToken hnames name).exists_project hv
    exact ⟨_, mem_definitions_iff.2 hp, hv⟩
  · obtain ⟨r, hr, -, hvalue⟩ := h.outputs id o ho
    rw [hvalue, Token.arnOf, Token.attributes_attribute, List.mem_singleton] at hv
    exact ⟨r, hr, hv⟩

end Placed

/-- The template of a config file.  Each definition has one id, under which its
record stands; there is no other record.  A reference to a project is shown as the
resource name of the record of that project where the config defines it, and
otherwise as it is.  Every attribute that the template refers to is the resource
name of one of its records. -/
theorem synthesize_contents
    {text : String} (hdecode : decode text = .ok c)
    {options : Synthesis.Options} (hrun : c.synthesize options = .ok s) :
    ∃ idOf : Resource → String,
      c.Placed s idOf ∧
      s.size =
        c.projects.length + c.features.length + c.experiments.length + c.launches.length ∧
      (∀ r ∈ c.definitions,
        s.template.record? (idOf r) =
          some (.object
            [("Properties", (r.mapProject (c.projectToken idOf)).properties),
              ("Type", .string ("AWS::Evidently::" ++ r.kind.label))])) ∧
      (∀ r ∈ c.definitions, ∀ t, r.project? = some t →
        ∃ name v, t = .literal name ∧ c.ShowsProject idOf name v ∧
          (r.mapProject (c.projectToken idOf)).properties.member? "Project" = some v) ∧
      ∀ v ∈ s.template.attributes,
        ∃ id, v = .array [.string id, .string "Arn"] ∧ (s.template.record? id).isSome := by
  obtain ⟨idOf, h⟩ := Synthesis.exists_placed alphanumeric_ofText hrun
  have haccepted := accepted_of_synthesizeWith alphanumeric_ofText hrun
  have hliteral := literal_of_decode hdecode
  refine ⟨idOf, h, ?_, ?_, ?_, ?_⟩
  · rw [h.size, length_definitions]
  · intro r hr
    exact h.record?_template hr
  · intro r hr t ht
    obtain ⟨name, rfl⟩ := hliteral r hr t ht
    refine ⟨name, _, rfl, showsProject_projectToken haccepted.projectNames name, ?_⟩
    rw [Resource.member?_project, Resource.project?_mapProject, ht]
    rfl
  · intro v hv
    obtain ⟨r, hr, rfl⟩ := h.mem_attributes_template haccepted.projectNames hliteral hv
    refine ⟨idOf r, rfl, ?_⟩
    rw [h.record?_template hr]
    rfl

/-- Two projects that differ in case only, and a launch of the second. -/
def siblings : Config where
  stackName := "s"
  account := none
  region := none
  projects := [⟨"a", none, none, Table.empty⟩, ⟨"A", none, none, Table.empty⟩]
  features := []
  experiments := []
  launches := [⟨"b", .literal "A", [], [], none, none, Table.empty⟩]

/-- The same as a text. -/
def siblingsText : String :=
  "\x7b\"stackName\":\"s\",\"projects\":[\x7b\"name\":\"a\"\x7d,\x7b\"name\":\"A\"\x7d]," ++
    "\"launches\":[\x7b\"name\":\"b\",\"project\":\"A\"\x7d]\x7d"

theorem siblings_contents :
    decode siblingsText = .ok siblings ∧
      ∃ s, siblings.synthesize ⟨true, true⟩ = .ok s ∧ s.size = 3 ∧
        ∀ v ∈ s.template.attributes,
          ∃ id, v = .array [.string id, .string "Arn"] ∧ (s.template.record? id).isSome := by
  have hdecode : decode siblingsText = .ok siblings := by decide +kernel
  have haccepted : siblings.Accepted true := by
    constructor
    · exact ⟨by decide, by decide⟩
    all_goals decide
  rcases exists_stack_or_error alphanumeric_ofText siblings ⟨true, true⟩ with
    ⟨-, s, hrun⟩ | ⟨e, -, hfault⟩
  · obtain ⟨idOf, -, hsize, -, -, hattributes⟩ := synthesize_contents hdecode hrun
    exact ⟨hdecode, s, hrun, hsize, hattributes⟩
  · exact absurd haccepted hfault.not_accepted

end Contents
end Config
end FlagStack
