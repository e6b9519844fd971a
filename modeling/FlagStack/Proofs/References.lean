import FlagStack.Dangling
import FlagStack.Proofs.Definitions
import FlagStack.Proofs.Tables

/-!
# References that lead somewhere

The report of dangling references is empty just if every reference of the config
leads somewhere.

**Results.**
* `dangling_eq_nil_iff`: nothing dangles just if the config is linked.
* `offers_iff_exists_feature`: where features are told apart by their names, it does
  not matter that the last feature of a name is looked up.
-/

namespace FlagStack
namespace Config

/-- The feature that is looked up under a name has a variation, unless the feature
is given by its resource name. -/
def Offers (c : Config) (feature variation : String) : Prop :=
  isResourceName feature ∨
    ∃ f, c.feature? feature = some f ∧ ∃ v ∈ f.variations, v.name = variation

/-- The references of a config all lead somewhere. -/
structure Linked (c : Config) : Prop where
  projects : ∀ r ∈ c.definitions, ∀ name, r.project? = some (.literal name) →
    isResourceName name ∨ ∃ p ∈ c.projects, p.name = name
  overrides : ∀ f ∈ c.features, ∀ o ∈ f.overrides, c.Offers f.name o.variation
  defaults : ∀ f ∈ c.features, ∀ name ∈ f.defaultVariation, c.Offers f.name name
  treatments : ∀ e ∈ c.experiments, ∀ t ∈ e.treatments, c.Offers t.feature t.variation
  controls : ∀ e ∈ c.experiments, ∀ name ∈ e.split.control, ∃ t ∈ e.treatments, t.name = name
  weights : ∀ e ∈ c.experiments, ∀ w ∈ e.split.weights, ∃ t ∈ e.treatments, t.name = w.treatment
  groups : ∀ l ∈ c.launches, ∀ g ∈ l.groups, c.Offers g.feature g.variation
  steps : ∀ l ∈ c.launches, ∀ step ∈ l.steps, ∀ w ∈ step.weights, ∃ g ∈ l.groups, g.name = w.group

variable {c : Config}

section Parts

/-- A reference to a project is not missing if it is a resource name or the name of
a project of the config. -/
theorem missingProject_eq_nil_iff
    {t : Token} :
    c.missingProject t = [] ↔
      ∀ name, t = .literal name → isResourceName name ∨ ∃ p ∈ c.projects, p.name = name := by
  cases t with
  | literal name =>
      by_cases harn : isResourceName name <;> simp [missingProject, harn]
  | «attribute» logicalId name => simp [missingProject]

theorem missingVariation_eq_nil_iff
    {feature name : String} :
    c.missingVariation feature name = [] ↔ c.Offers feature name := by
  rw [missingVariation, Offers]
  by_cases harn : isResourceName feature
  · simp [harn]
  · cases hfind : c.feature? feature with
    | none => simp [harn]
    | some f => simp [harn]

theorem missingOfFeature_eq_nil_iff
    {f : Feature} :
    c.missingOfFeature f = [] ↔
      (∀ name, f.project = .literal name →
        isResourceName name ∨ ∃ p ∈ c.projects, p.name = name) ∧
      (∀ o ∈ f.overrides, c.Offers f.name o.variation) ∧
      ∀ name ∈ f.defaultVariation, c.Offers f.name name := by
  simp only [missingOfFeature, List.append_eq_nil_iff, missingProject_eq_nil_iff,
    List.flatMap_append, List.flatMap_map, List.flatMap_eq_nil_iff, missingVariation_eq_nil_iff,
    Option.mem_toList, Option.mem_def]

theorem missingOfExperiment_eq_nil_iff
    {e : Experiment} :
    c.missingOfExperiment e = [] ↔
      (∀ name, e.project = .literal name →
        isResourceName name ∨ ∃ p ∈ c.projects, p.name = name) ∧
      (∀ t ∈ e.treatments, c.Offers t.feature t.variation) ∧
      (∀ name ∈ e.split.control, ∃ t ∈ e.treatments, t.name = name) ∧
      ∀ w ∈ e.split.weights, ∃ t ∈ e.treatments, t.name = w.treatment := by
  simp [missingOfExperiment, missingProject_eq_nil_iff, missingVariation_eq_nil_iff,
    List.flatMap_map]

theorem missingOfLaunch_eq_nil_iff
    {l : Launch} :
    c.missingOfLaunch l = [] ↔
      (∀ name, l.project = .literal name →
        isResourceName name ∨ ∃ p ∈ c.projects, p.name = name) ∧
      (∀ g ∈ l.groups, c.Offers g.feature g.variation) ∧
      ∀ step ∈ l.steps, ∀ w ∈ step.weights, ∃ g ∈ l.groups, g.name = w.group := by
  simp [missingOfLaunch, missingProject_eq_nil_iff, missingVariation_eq_nil_iff,
    List.flatMap_map]

end Parts

/-- Nothing dangles just if the config is linked. -/
theorem dangling_eq_nil_iff :
    c.dangling = [] ↔ c.Linked := by
  simp only [dangling, List.append_eq_nil_iff, List.flatMap_eq_nil_iff, List.map_eq_nil_iff,
    missingOfFeature_eq_nil_iff, missingOfExperiment_eq_nil_iff, missingOfLaunch_eq_nil_iff]
  constructor
  · rintro ⟨⟨hf, he⟩, hl⟩
    constructor
    · rw [forall_definitions_iff]
      refine ⟨fun _ _ => nofun, ?_, ?_, ?_⟩
      · intro f hmem name hname
        exact (hf f hmem).1 name (Option.some.inj hname)
      · intro e hmem name hname
        exact (he e hmem).1 name (Option.some.inj hname)
      · intro l hmem name hname
        exact (hl l hmem).1 name (Option.some.inj hname)
    · exact fun f hmem => (hf f hmem).2.1
    · exact fun f hmem => (hf f hmem).2.2
    · exact fun e hmem => (he e hmem).2.1
    · exact fun e hmem => (he e hmem).2.2.1
    · exact fun e hmem => (he e hmem).2.2.2
    · exact fun l hmem => (hl l hmem).2.1
    · exact fun l hmem => (hl l hmem).2.2
  · intro h
    obtain ⟨-, hf, he, hl⟩ := forall_definitions_iff.1 h.projects
    refine ⟨⟨?_, ?_⟩, ?_⟩
    · intro f hmem
      refine ⟨?_, h.overrides f hmem, h.defaults f hmem⟩
      exact fun name hname => hf f hmem name (congrArg some hname)
    · intro e hmem
      refine ⟨?_, h.treatments e hmem, h.controls e hmem, h.weights e hmem⟩
      exact fun name hname => he e hmem name (congrArg some hname)
    · intro l hmem
      refine ⟨?_, h.groups l hmem, h.steps l hmem⟩
      exact fun name hname => hl l hmem name (congrArg some hname)

section Names

/-- Where features are told apart by their names, a name is looked up as in a
table. -/
theorem feature?_eq_some_iff
    (hnames : (c.features.map Feature.name).Nodup) {name : String} {f : Feature} :
    c.feature? name = some f ↔ f ∈ c.features ∧ f.name = name := by
  have hreverse : (c.features.reverse.map Feature.name).Nodup := by
    rwa [List.map_reverse, List.nodup_reverse]
  rw [feature?, find?_key_eq_some_iff hreverse, List.mem_reverse]

theorem offers_iff_exists_feature
    (hnames : (c.features.map Feature.name).Nodup) {feature variation : String} :
    c.Offers feature variation ↔
      isResourceName feature ∨
        ∃ f ∈ c.features, f.name = feature ∧ ∃ v ∈ f.variations, v.name = variation := by
  simp only [Offers, feature?_eq_some_iff hnames, and_assoc]

end Names
end Config
end FlagStack
