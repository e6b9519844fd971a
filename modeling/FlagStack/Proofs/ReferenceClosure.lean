import FlagStack.Proofs.References
import FlagStack.Proofs.TemplateContents

/-!
# Templates that are closed under references

Under the strict option the names in a synthesized template lead to what the same
template has under them.  This is said of the template as it is written: what the
report of dangling references looks at is the config, and what is rendered is
another thing.

**Results.**
* `hasRecord_iff`: the records of a kind are the definitions of that kind.
* `Placed.closed`: the template of a linked config is closed.
-/

namespace FlagStack
namespace Json

/-- The template has a record of a kind under a logical id, with some properties. -/
def HasRecord (template : Json) (kind : Kind) (id : String) (props : Json) : Prop :=
  ∃ record, template.record? id = some record ∧
    record.member? "Type" = some (.string kind.resourceType) ∧
    record.member? "Properties" = some props

/-- An item of a list has a name. -/
def HasItem (props : Json) (list member name : String) : Prop :=
  ∃ item ∈ props.itemsAt list, item.textAt? member = some name

/-- A variation has a name, the empty one where it shows none. -/
def HasVariation (props : Json) (name : String) : Prop :=
  ∃ v ∈ props.itemsAt "Variations", (v.textAt? "VariationName").getD "" = name

/-- A value names a variation of a feature.  The feature is given by its resource
name, or it is the only record with its name and has the variation. -/
def NamesVariation (template part : Json) : Prop :=
  ∃ feature variation,
    part.textAt? "Feature" = some feature ∧ part.textAt? "Variation" = some variation ∧
    (isResourceName feature ∨
      ∃ id props, template.HasRecord .feature id props ∧
        props.textAt? "Name" = some feature ∧ props.HasVariation variation ∧
        ∀ id' props', template.HasRecord .feature id' props' →
          props'.textAt? "Name" = some feature → id' = id)

/-- The names in a template lead to what the template has under them. -/
structure Closed (template : Json) : Prop where
  /-- A project is a record of the template, or given by its resource name. -/
  projects : ∀ kind ≠ .project, ∀ id props, template.HasRecord kind id props →
    (∃ id' props', template.HasRecord .project id' props' ∧
      props.member? "Project" =
        some (.object [("Fn::GetAtt", .array [.string id', .string "Arn"])])) ∨
    ∃ name, props.member? "Project" = some (.string name) ∧ isResourceName name
  treatments : ∀ id props, template.HasRecord .experiment id props →
    ∀ t ∈ props.itemsAt "Treatments", template.NamesVariation t
  groups : ∀ id props, template.HasRecord .launch id props →
    ∀ g ∈ props.itemsAt "Groups", template.NamesVariation g
  overrides : ∀ id props name, template.HasRecord .feature id props →
    props.textAt? "Name" = some name → ¬ isResourceName name →
    ∀ o ∈ props.itemsAt "EntityOverrides",
      ∃ variation, o.textAt? "Variation" = some variation ∧
        props.HasVariation variation
  defaults : ∀ id props name, template.HasRecord .feature id props →
    props.textAt? "Name" = some name → ¬ isResourceName name →
    ∀ v, props.member? "DefaultVariation" = some v →
      ∃ variation, v = .string variation ∧
        props.HasVariation variation
  splits : ∀ id props, template.HasRecord .experiment id props →
    ∃ split, props.member? "OnlineAbConfig" = some split ∧
      (∀ v, split.member? "ControlTreatmentName" = some v →
        ∃ name, v = .string name ∧ props.HasItem "Treatments" "TreatmentName" name) ∧
      ∀ w ∈ split.itemsAt "TreatmentWeights",
        ∃ name, w.textAt? "Treatment" = some name ∧
          props.HasItem "Treatments" "TreatmentName" name
  steps : ∀ id props, template.HasRecord .launch id props →
    ∀ step ∈ props.itemsAt "ScheduledSplitsConfig", ∀ w ∈ step.itemsAt "GroupWeights",
      ∃ name, w.textAt? "GroupName" = some name ∧ props.HasItem "Groups" "GroupName" name

end Json

open Json

section Properties

variable {f : Feature} {e : Experiment} {l : Launch} {name : String}

theorem Variation.textAt?_name
    (v : Variation) :
    (v.properties.textAt? "VariationName").getD "" = v.name := by
  obtain ⟨label, value⟩ := v
  cases label <;> cases value <;> simp [Variation.properties, Variation.name, textAt?]

theorem Feature.itemsAt_variations :
    f.properties.itemsAt "Variations" = f.variations.map Variation.properties := by
  simp [itemsAt, Feature.properties]

theorem Feature.itemsAt_overrides :
    f.properties.itemsAt "EntityOverrides" = f.overrides.map Override.properties :=
  itemsAt_nonEmptyProperty (by simp [Feature.properties])

theorem Experiment.itemsAt_treatments :
    e.properties.itemsAt "Treatments" = e.treatments.map Treatment.properties := by
  simp [itemsAt, Experiment.properties]

theorem Experiment.member?_split :
    e.properties.member? "OnlineAbConfig" = some e.split.properties := by
  simp [Experiment.properties]

theorem Split.itemsAt_weights
    (s : Split) :
    s.properties.itemsAt "TreatmentWeights" = s.weights.map TreatmentWeight.properties :=
  itemsAt_nonEmptyProperty (by simp [Split.properties])

theorem Launch.itemsAt_groups :
    l.properties.itemsAt "Groups" = l.groups.map Group.properties := by
  simp [itemsAt, Launch.properties]

theorem Launch.itemsAt_steps :
    l.properties.itemsAt "ScheduledSplitsConfig" = l.steps.map LaunchStep.properties := by
  simp [itemsAt, Launch.properties]

/-- The variations of a feature are found by their names. -/
theorem Feature.hasVariation_iff :
    f.properties.HasVariation name ↔ ∃ v ∈ f.variations, v.name = name := by
  simp [HasVariation, Feature.itemsAt_variations, Variation.textAt?_name]

theorem Experiment.hasItem_iff :
    e.properties.HasItem "Treatments" "TreatmentName" name ↔
      ∃ t ∈ e.treatments, t.name = name := by
  simp [HasItem, Experiment.itemsAt_treatments, Treatment.properties, textAt?]

theorem Launch.hasItem_iff :
    l.properties.HasItem "Groups" "GroupName" name ↔ ∃ g ∈ l.groups, g.name = name := by
  simp [HasItem, Launch.itemsAt_groups, Group.properties, textAt?]

end Properties

namespace Config

section Records

variable {c : Config} {s : Stack} {idOf : Resource → String} {id name : String} {props : Json}

theorem resourceType_injective
    {kind kind' : Kind} (h : kind.resourceType = kind'.resourceType) :
    kind = kind' :=
  Kind.label_injective ((String.append_right_inj "AWS::Evidently::").1 h)

/-- The records of a kind are the definitions of that kind. -/
theorem Placed.hasRecord_iff
    (h : c.Placed s idOf) {kind : Kind} :
    s.template.HasRecord kind id props ↔
      ∃ r ∈ c.definitions, idOf r = id ∧ r.kind = kind ∧
        props = (r.mapProject (c.projectToken idOf)).properties := by
  constructor
  · rintro ⟨record, hrecord, htype, hprops⟩
    rw [Stack.record?_template] at hrecord
    obtain ⟨r', hr', rfl⟩ := Option.map_eq_some_iff.1 hrecord
    obtain ⟨r, hr, hid, rfl⟩ := (h.records id r').1 hr'
    rw [Resource.member?_type, Resource.kind_mapProject] at htype
    rw [Resource.member?_properties] at hprops
    have hkind : r.kind = kind := by
      refine resourceType_injective ?_
      simpa using htype
    exact ⟨r, hr, hid, hkind, (Option.some.inj hprops).symm⟩
  · rintro ⟨r, hr, rfl, rfl, rfl⟩
    refine ⟨_, ?_, ?_, Resource.member?_properties _⟩
    · rw [Stack.record?_template, h.get?_resources hr]
      rfl
    · rw [Resource.member?_type, Resource.kind_mapProject]

theorem Placed.hasRecord_project
    (h : c.Placed s idOf) {p : Project} (hp : p ∈ c.projects) :
    s.template.HasRecord .project (idOf (.project p)) p.properties :=
  h.hasRecord_iff.2 ⟨.project p, mem_definitions_iff.2 hp, rfl, rfl, rfl⟩

theorem Placed.hasRecord_feature_iff
    (h : c.Placed s idOf) :
    s.template.HasRecord .feature id props ↔
      ∃ f ∈ c.features, idOf (.feature f) = id ∧
        props = Feature.properties { f with project := c.projectToken idOf f.project } := by
  rw [h.hasRecord_iff]
  constructor
  · rintro ⟨r, hr, hid, hkind, hprops⟩
    cases r with
    | feature f => exact ⟨f, mem_definitions_iff.1 hr, hid, hprops⟩
    | _ => cases hkind
  · rintro ⟨f, hf, hid, hprops⟩
    exact ⟨.feature f, mem_definitions_iff.2 hf, hid, rfl, hprops⟩

theorem Placed.exists_experiment
    (h : c.Placed s idOf) (hrecord : s.template.HasRecord .experiment id props) :
    ∃ e ∈ c.experiments,
      props = Experiment.properties { e with project := c.projectToken idOf e.project } := by
  obtain ⟨r, hr, -, hkind, hprops⟩ := h.hasRecord_iff.1 hrecord
  cases r with
  | experiment e => exact ⟨e, mem_definitions_iff.1 hr, hprops⟩
  | _ => cases hkind

theorem Placed.exists_launch
    (h : c.Placed s idOf) (hrecord : s.template.HasRecord .launch id props) :
    ∃ l ∈ c.launches,
      props = Launch.properties { l with project := c.projectToken idOf l.project } := by
  obtain ⟨r, hr, -, hkind, hprops⟩ := h.hasRecord_iff.1 hrecord
  cases r with
  | launch l => exact ⟨l, mem_definitions_iff.1 hr, hprops⟩
  | _ => cases hkind

/-- What a config offers is named in the template. -/
theorem Placed.namesVariation
    (h : c.Placed s idOf) (hnames : (c.features.map Feature.name).Nodup)
    {part : Json} {feature variation : String}
    (hfeature : part.textAt? "Feature" = some feature)
    (hvariation : part.textAt? "Variation" = some variation)
    (hoffers : c.Offers feature variation) :
    s.template.NamesVariation part := by
  refine ⟨feature, variation, hfeature, hvariation, ?_⟩
  rcases (offers_iff_exists_feature hnames).1 hoffers with harn | ⟨f, hf, rfl, hoffered⟩
  · exact .inl harn
  · refine .inr ⟨_, _, h.hasRecord_feature_iff.2 ⟨f, hf, rfl, rfl⟩, ?_, ?_, ?_⟩
    · exact Resource.textAt?_name (.feature _)
    · exact Feature.hasVariation_iff.2 hoffered
    · intro id' props' hrecord hname
      obtain ⟨f', hf', rfl, rfl⟩ := h.hasRecord_feature_iff.1 hrecord
      have hsame : f'.name = f.name := by
        have hshown := Resource.textAt?_name
          (.feature { f' with project := c.projectToken idOf f'.project })
        exact Option.some.inj (hshown.symm.trans hname)
      rw [List.inj_on_of_nodup_map hnames hf' hf hsame]

/-- A feature that is not named by a resource name offers its own variations. -/
theorem hasVariation_of_offers
    (hnames : (c.features.map Feature.name).Nodup) {f : Feature} (hf : f ∈ c.features)
    (harn : ¬ isResourceName f.name) (hoffers : c.Offers f.name name) (project : Token) :
    (Feature.properties { f with project := project }).HasVariation name := by
  rcases (offers_iff_exists_feature hnames).1 hoffers with h | ⟨f', hf', hsame, hoffered⟩
  · exact absurd h harn
  · rw [List.inj_on_of_nodup_map hnames hf' hf hsame] at hoffered
    exact Feature.hasVariation_iff.2 hoffered

end Records

section Closure

variable {c : Config} {s : Stack} {idOf : Resource → String}

/-- A record of a linked config shows a project of the template or a resource
name. -/
theorem Linked.project_shown
    (hlinked : c.Linked) (hnames : (c.projects.map Project.name).Nodup)
    (hliteral : ∀ r ∈ c.definitions, ∀ t, r.project? = some t → ∃ name, t = .literal name)
    {r : Resource} (hr : r ∈ c.definitions) (hkind : r.kind ≠ .project)
    (idOf : Resource → String) :
    (∃ p ∈ c.projects, (r.mapProject (c.projectToken idOf)).properties.member? "Project" =
      some (.object [("Fn::GetAtt", .array [.string (idOf (.project p)), .string "Arn"])])) ∨
    ∃ name, (r.mapProject (c.projectToken idOf)).properties.member? "Project" =
      some (.string name) ∧ isResourceName name := by
  obtain ⟨t, ht⟩ : ∃ t, r.project? = some t := by
    cases r with
    | project p => exact absurd rfl hkind
    | feature f => exact ⟨f.project, rfl⟩
    | experiment e => exact ⟨e.project, rfl⟩
    | launch l => exact ⟨l.project, rfl⟩
  obtain ⟨name, rfl⟩ := hliteral r hr t ht
  rw [Resource.member?_project, Resource.project?_mapProject, ht, Option.map_some, Option.map_some]
  have hshown : c.ShowsProject idOf name (c.projectToken idOf (.literal name)).json :=
    showsProject_projectToken hnames name
  generalize (c.projectToken idOf (.literal name)).json = v at hshown
  cases hshown with
  | defined hp _ => exact .inl ⟨_, hp, rfl⟩
  | external hexternal =>
      rcases hlinked.projects r hr name ht with harn | ⟨p, hp, hname⟩
      · exact .inr ⟨name, rfl, harn⟩
      · exact absurd hname (hexternal p hp)

/-- The template of a linked config is closed. -/
theorem Placed.closed
    (h : c.Placed s idOf) (hlinked : c.Linked)
    (hprojects : (c.projects.map Project.name).Nodup)
    (hfeatures : (c.features.map Feature.name).Nodup)
    (hliteral : ∀ r ∈ c.definitions, ∀ t, r.project? = some t → ∃ name, t = .literal name) :
    s.template.Closed := by
  constructor
  case projects =>
    intro kind hkind id props hrecord
    obtain ⟨r, hr, -, rfl, rfl⟩ := h.hasRecord_iff.1 hrecord
    rcases hlinked.project_shown hprojects hliteral hr hkind idOf with
      ⟨p, hp, hshown⟩ | ⟨name, hshown, harn⟩
    · exact .inl ⟨_, _, h.hasRecord_project hp, hshown⟩
    · exact .inr ⟨name, hshown, harn⟩
  case treatments =>
    intro id props hrecord part hpart
    obtain ⟨e, he, rfl⟩ := h.exists_experiment hrecord
    rw [Experiment.itemsAt_treatments, List.mem_map] at hpart
    obtain ⟨t, ht, rfl⟩ := hpart
    have hoffers := hlinked.treatments e he t ht
    exact h.namesVariation hfeatures (by simp [Treatment.properties, textAt?])
      (by simp [Treatment.properties, textAt?]) hoffers
  case groups =>
    intro id props hrecord part hpart
    obtain ⟨l, hl, rfl⟩ := h.exists_launch hrecord
    rw [Launch.itemsAt_groups, List.mem_map] at hpart
    obtain ⟨g, hg, rfl⟩ := hpart
    have hoffers := hlinked.groups l hl g hg
    exact h.namesVariation hfeatures (by simp [Group.properties, textAt?])
      (by simp [Group.properties, textAt?]) hoffers
  case overrides =>
    intro id props name hrecord hname harn part hpart
    obtain ⟨f, hf, -, rfl⟩ := h.hasRecord_feature_iff.1 hrecord
    have hsame : f.name = name := by
      simpa [Feature.properties, textAt?] using hname
    subst hsame
    rw [Feature.itemsAt_overrides, List.mem_map] at hpart
    obtain ⟨o, ho, rfl⟩ := hpart
    refine ⟨o.variation, by simp [Override.properties, textAt?, List.lookup_cons], ?_⟩
    exact hasVariation_of_offers hfeatures hf harn (hlinked.overrides f hf o ho) _
  case defaults =>
    intro id props name hrecord hname harn v hv
    obtain ⟨f, hf, -, rfl⟩ := h.hasRecord_feature_iff.1 hrecord
    have hsame : f.name = name := by
      simpa [Feature.properties, textAt?] using hname
    subst hsame
    have hdefault : f.defaultVariation.map Json.string = some v := by
      simpa [Feature.properties] using hv
    obtain ⟨variation, hvariation, rfl⟩ := Option.map_eq_some_iff.1 hdefault
    refine ⟨variation, rfl, ?_⟩
    exact hasVariation_of_offers hfeatures hf harn (hlinked.defaults f hf variation hvariation) _
  case splits =>
    intro id props hrecord
    obtain ⟨e, he, rfl⟩ := h.exists_experiment hrecord
    refine ⟨e.split.properties, Experiment.member?_split, ?_, ?_⟩
    · intro v hv
      have hcontrol : e.split.control.map Json.string = some v := by
        simpa [Split.properties] using hv
      obtain ⟨name, hname, rfl⟩ := Option.map_eq_some_iff.1 hcontrol
      exact ⟨name, rfl, Experiment.hasItem_iff.2 (hlinked.controls e he name hname)⟩
    · intro part hpart
      rw [Split.itemsAt_weights, List.mem_map] at hpart
      obtain ⟨w, hw, rfl⟩ := hpart
      refine ⟨w.treatment, by simp [TreatmentWeight.properties, textAt?, List.lookup_cons], ?_⟩
      exact Experiment.hasItem_iff.2 (hlinked.weights e he w hw)
  case steps =>
    intro id props hrecord part hpart w' hw'
    obtain ⟨l, hl, rfl⟩ := h.exists_launch hrecord
    rw [Launch.itemsAt_steps, List.mem_map] at hpart
    obtain ⟨step, hstep, rfl⟩ := hpart
    have hweights : step.properties.itemsAt "GroupWeights" =
        step.weights.map GroupWeight.properties := by
      simp [LaunchStep.properties, itemsAt]
    rw [hweights, List.mem_map] at hw'
    obtain ⟨w, hw, rfl⟩ := hw'
    refine ⟨w.group, by simp [GroupWeight.properties, textAt?], ?_⟩
    exact Launch.hasItem_iff.2 (hlinked.steps l hl step hstep w hw)

/-- The template of a config file that is synthesized under the strict option is
closed under references. -/
theorem closed_of_strict
    {text : String} (hdecode : decode text = .ok c)
    {options : Synthesis.Options} (hstrict : options.strict)
    (hrun : c.synthesize options = .ok s) :
    s.template.Closed := by
  obtain ⟨idOf, h⟩ := Synthesis.exists_placed alphanumeric_ofText hrun
  have haccepted := accepted_of_synthesizeWith alphanumeric_ofText hrun
  have hlinked := dangling_eq_nil_iff.1 (haccepted.references hstrict)
  exact h.closed hlinked haccepted.projectNames haccepted.featureNames (literal_of_decode hdecode)

/-- A config of all kinds, with a variation that has no name. -/
def connected : Config where
  stackName := "s"
  account := none
  region := none
  projects := [⟨"p", none, none, Table.empty⟩]
  features :=
    [⟨"f", .literal "p", [⟨none, .boolean true⟩], [], none, none, some "", Table.empty⟩]
  experiments :=
    [⟨"e", .literal "p", [], ⟨some "t", []⟩, [⟨"f", "t", "", none⟩], none, none, none, Table.empty⟩]
  launches := [⟨"l", .literal "arn:p", [⟨"f", "g", "", none⟩], [], none, none, Table.empty⟩]

/-- The same as a text, with records as arrays. -/
def connectedText : String :=
  "[\"s\",null,null,[[\"p\",null,null]]," ++
    "[[\"f\",\"p\",[[null,\"BOOLEAN\",true]],[],null,null,\"\"]]," ++
    "[[\"e\",\"p\",[],[\"t\"],[[\"f\",\"t\",\"\",null]],null,null,null]]," ++
    "[[\"l\",\"arn:p\",[[\"f\",\"g\",\"\",null]],[],null,null]]]"

theorem connected_closed :
    decode connectedText = .ok connected ∧
      ∃ s, connected.synthesize ⟨true, false⟩ = .ok s ∧ s.template.Closed := by
  have hdecode : decode connectedText = .ok connected := by decide +kernel
  have haccepted : connected.Accepted true := by
    constructor
    · exact ⟨by decide, by decide⟩
    all_goals decide
  rcases exists_stack_or_error alphanumeric_ofText connected ⟨true, false⟩ with
    ⟨-, s, hrun⟩ | ⟨e, -, hfault⟩
  · exact ⟨hdecode, s, hrun, closed_of_strict hdecode rfl hrun⟩
  · exact absurd haccepted hfault.not_accepted

end Closure
end Config
end FlagStack
