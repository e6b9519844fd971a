import FlagStack.Proofs.References
import Mathlib.Data.List.Forall2

/-!
# Reports of dangling references

The references of a config stand in an order: definition by definition, and within
each its project first.  Of each that dangles there is one report, in that order, and
of the others there is none.

When a reference dangles is said without the check: of a feature that is named twice
the last is meant, and treatments and groups are looked for in the definition only that
refers to them.

**Results.**
* `judged`: a reference that dangles is reported once, and any other is not.
* `dangling_eq_flatMap`: the check goes through the references in order.
* `dangling_reports`: the reports are those of the references that dangle, one for one.
-/

namespace FlagStack

/-- What a definition refers to by name. -/
inductive Target where
  | project (reference : Token)
  | variation (feature name : String)
  /-- A treatment of the experiment that refers to it. -/
  | treatment (e : Experiment) (name : String)
  /-- A group of the launch that refers to it, in a step with this start. -/
  | group (l : Launch) (start : Instant) (name : String)

/-- A reference, with the definition that makes it. -/
structure Reference where
  owner : Resource
  target : Target

/-- The project, the overrides and the default variation. -/
def Feature.targets (f : Feature) : List Target :=
  .project f.project ::
    (f.overrides.map (fun o => .variation f.name o.variation) ++
      f.defaultVariation.toList.map (.variation f.name))

/-- The project, the treatments, the control treatment and the weights. -/
def Experiment.targets (e : Experiment) : List Target :=
  .project e.project ::
    (e.treatments.map (fun t => .variation t.feature t.variation) ++
      (e.split.control.toList.map (.treatment e) ++
        e.split.weights.map fun w => .treatment e w.treatment))

/-- The project, the groups and the weights of each step. -/
def Launch.targets (l : Launch) : List Target :=
  .project l.project ::
    (l.groups.map (fun g => .variation g.feature g.variation) ++
      l.steps.flatMap fun step => step.weights.map fun w => .group l step.start w.group)

/-- What a definition refers to, in order. -/
def Resource.targets : Resource → List Target
  | .project _ => []
  | .feature f => f.targets
  | .experiment e => e.targets
  | .launch l => l.targets

namespace Config

/-- The references of a config: those of its features, of its experiments and of its
launches. -/
def references (c : Config) : List Reference :=
  c.definitions.flatMap fun r => r.targets.map (.mk r)

/-- The feature is the last one with a name. -/
def LastNamed (c : Config) (name : String) (f : Feature) : Prop :=
  f.name = name ∧
    ∃ before behind, c.features = before ++ f :: behind ∧ ∀ g ∈ behind, g.name ≠ name

/-- Nothing is there that a reference could be to. -/
def Dangles (c : Config) : Target → Prop
  | .project (.attribute ..) => False
  | .project (.literal name) =>
      ¬ "arn:".toList <+: name.toList ∧ ∀ p ∈ c.projects, p.name ≠ name
  | .variation feature name =>
      ¬ "arn:".toList <+: feature.toList ∧
        ((∀ f ∈ c.features, f.name ≠ feature) ∨
          ∃ f, c.LastNamed feature f ∧ ∀ v ∈ f.variations, v.name ≠ name)
  | .treatment e name => ∀ t ∈ e.treatments, t.name ≠ name
  | .group l _ name => ∀ g ∈ l.groups, g.name ≠ name

/-- What is reported of a reference: the name that leads nowhere, which for a variation
is that of the feature if there is no such feature. -/
inductive Tells (c : Config) : Target → Missing → Prop
  | project (name : String) : Tells c (.project (.literal name)) (.project name)
  | feature {feature : String} (hnone : ∀ f ∈ c.features, f.name ≠ feature) (name : String) :
      Tells c (.variation feature name) (.feature feature)
  | variation {f : Feature} (hf : f ∈ c.features) (name : String) :
      Tells c (.variation f.name name) (.variation f.name name)
  | treatment (e : Experiment) (name : String) : Tells c (.treatment e name) (.treatment name)
  | group (l : Launch) (start : Instant) (name : String) :
      Tells c (.group l start name) (.group start name)

/-- A report is of a reference: it is about the definition that makes it. -/
structure Reports (c : Config) (r : Reference) (d : Dangling) : Prop where
  kind : d.kind = r.owner.kind
  owner : d.owner = r.owner.name
  missing : c.Tells r.target d.missing

/-- What the check finds for a reference. -/
def missing (c : Config) : Target → List Missing
  | .project reference => c.missingProject reference
  | .variation feature name => c.missingVariation feature name
  | .treatment e name => if e.treatments.any fun t => t.name == name then [] else [.treatment name]
  | .group l start name =>
      if l.groups.any fun g => g.name == name then [] else [.group start name]

variable {c : Config}

section Lookup

theorem feature?_eq_none_iff
    {name : String} :
    c.feature? name = none ↔ ∀ f ∈ c.features, f.name ≠ name := by
  simp [feature?]

/-- The feature that is looked up is the last one with the name. -/
theorem feature?_eq_some_iff_lastNamed
    {name : String} {f : Feature} :
    c.feature? name = some f ↔ c.LastNamed name f := by
  rw [feature?, List.find?_eq_some_iff_append, LastNamed, beq_iff_eq]
  refine and_congr_right fun _ => ?_
  constructor
  · rintro ⟨behind, before, hsplit, hbehind⟩
    refine ⟨before.reverse, behind.reverse, ?_, ?_⟩
    · rw [← List.reverse_reverse c.features, hsplit]
      simp
    · intro g hg
      simpa using hbehind g (List.mem_reverse.1 hg)
  · rintro ⟨before, behind, hsplit, hbehind⟩
    refine ⟨behind.reverse, before.reverse, ?_, ?_⟩
    · rw [hsplit]
      simp
    · intro g hg
      simpa using hbehind g (List.mem_reverse.1 hg)

end Lookup

section Occurrences

/-- A reference dangles, and that is reported once, or it does not, and nothing is. -/
def Judged (c : Config) (target : Target) : Prop :=
  (¬ c.Dangles target ∧ c.missing target = []) ∨
    c.Dangles target ∧ ∃ m, c.missing target = [m] ∧ c.Tells target m

theorem isResourceName_iff
    {name : String} :
    isResourceName name ↔ "arn:".toList <+: name.toList :=
  List.isPrefixOf_iff_prefix

theorem judged_project
    (c : Config) (reference : Token) :
    c.Judged (.project reference) := by
  cases reference with
  | «attribute» logicalId name => exact .inl ⟨id, rfl⟩
  | literal name =>
      by_cases hfound : isResourceName name ∨ ∃ p ∈ c.projects, p.name = name
      · refine .inl ⟨?_, ?_⟩
        · rintro ⟨harn, hnone⟩
          rcases hfound with hfound | ⟨p, hp, hname⟩
          · exact harn (isResourceName_iff.1 hfound)
          · exact hnone p hp hname
        · have hnil : c.missingProject (.literal name) = [] := by
            rw [missingProject_eq_nil_iff]
            rintro _ ⟨⟩
            exact hfound
          exact hnil
      · rw [not_or] at hfound
        refine .inr ⟨⟨mt isResourceName_iff.2 hfound.1, ?_⟩, .project name, ?_, .project name⟩
        · exact fun p hp hname => hfound.2 ⟨p, hp, hname⟩
        · simpa [missing, missingProject, hfound.1] using hfound.2

theorem judged_variation
    (c : Config) (feature name : String) :
    c.Judged (.variation feature name) := by
  by_cases harn : isResourceName feature
  · refine .inl ⟨fun h => h.1 (isResourceName_iff.1 harn), ?_⟩
    simp [missing, missingVariation, harn]
  · have hplain := mt isResourceName_iff.2 harn
    cases hfind : c.feature? feature with
    | none =>
        have hnone := feature?_eq_none_iff.1 hfind
        refine .inr ⟨⟨hplain, .inl hnone⟩, .feature feature, ?_, .feature hnone name⟩
        simp [missing, missingVariation, harn, hfind]
    | some f =>
        have hlast := feature?_eq_some_iff_lastNamed.1 hfind
        have hf : f ∈ c.features ∧ f.name = feature := by
          obtain ⟨hname, before, behind, hsplit, -⟩ := hlast
          exact ⟨by simp [hsplit], hname⟩
        obtain ⟨hf, rfl⟩ := hf
        by_cases hoffers : ∃ v ∈ f.variations, v.name = name
        · refine .inl ⟨?_, ?_⟩
          · rintro ⟨-, hnone | ⟨g, hg, hnone⟩⟩
            · exact hnone f hf rfl
            · -- The last feature of a name is one.
              have hsame : some g = some f := (feature?_eq_some_iff_lastNamed.2 hg).symm.trans hfind
              cases hsame
              obtain ⟨v, hv, hname⟩ := hoffers
              exact hnone v hv hname
          · simp [missing, missingVariation, harn, hfind, hoffers]
        · have hnone : ∀ v ∈ f.variations, v.name ≠ name :=
            fun v hv hname => hoffers ⟨v, hv, hname⟩
          refine .inr ⟨⟨hplain, .inr ⟨f, hlast, hnone⟩⟩, _, ?_, .variation hf name⟩
          simp [missing, missingVariation, harn, hfind, hoffers]

/-- A reference is judged wherever it is to. -/
theorem judged
    (c : Config) (target : Target) :
    c.Judged target := by
  cases target with
  | project reference => exact judged_project c reference
  | variation feature name => exact judged_variation c feature name
  | treatment e name =>
      by_cases h : ∃ t ∈ e.treatments, t.name = name
      · refine .inl ⟨?_, by simp [missing, h]⟩
        obtain ⟨t, ht, hname⟩ := h
        exact fun hnone => hnone t ht hname
      · refine .inr ⟨?_, .treatment name, by simp [missing, h], .treatment e name⟩
        exact fun t ht hname => h ⟨t, ht, hname⟩
  | group l start name =>
      by_cases h : ∃ g ∈ l.groups, g.name = name
      · refine .inl ⟨?_, by simp [missing, h]⟩
        obtain ⟨g, hg, hname⟩ := h
        exact fun hnone => hnone g hg hname
      · refine .inr ⟨?_, .group start name, by simp [missing, h], .group l start name⟩
        exact fun g hg hname => h ⟨g, hg, hname⟩

theorem dangles_iff
    {target : Target} :
    c.Dangles target ↔ c.missing target ≠ [] := by
  rcases c.judged target with ⟨hnot, hnil⟩ | ⟨hdangles, m, hm, -⟩
  · simp [hnot, hnil]
  · simp [hdangles, hm]

instance (c : Config) (target : Target) : Decidable (c.Dangles target) :=
  decidable_of_iff' _ dangles_iff

end Occurrences

section Order

theorem missingOfFeature_eq
    (c : Config) (f : Feature) :
    c.missingOfFeature f = f.targets.flatMap c.missing := by
  simp [missingOfFeature, Feature.targets, missing, List.flatMap_map]

theorem missingOfExperiment_eq
    (c : Config) (e : Experiment) :
    c.missingOfExperiment e = e.targets.flatMap c.missing := by
  simp [missingOfExperiment, Experiment.targets, missing, List.flatMap_map]

theorem missingOfLaunch_eq
    (c : Config) (l : Launch) :
    c.missingOfLaunch l = l.targets.flatMap c.missing := by
  simp [missingOfLaunch, Launch.targets, missing, List.flatMap_map, List.flatMap_assoc]

/-- The check goes through the references in order. -/
theorem dangling_eq_flatMap
    (c : Config) :
    c.dangling =
      c.references.flatMap fun r => (c.missing r.target).map (.mk r.owner.kind r.owner.name) := by
  have hmissing :
      c.dangling =
        c.features.flatMap (fun f => (f.targets.flatMap c.missing).map (.mk .feature f.name)) ++
          c.experiments.flatMap
            (fun e => (e.targets.flatMap c.missing).map (.mk .experiment e.name)) ++
          c.launches.flatMap
            fun l => (l.targets.flatMap c.missing).map (.mk .launch l.name) := by
    simp only [dangling, missingOfFeature_eq, missingOfExperiment_eq, missingOfLaunch_eq]
  rw [hmissing]
  simp [references, definitions, members, Resource.targets, Resource.kind, Resource.name,
    List.flatMap_map, List.flatMap_assoc, List.map_flatMap]

/-- The reports are those of the references that dangle, one for one. -/
theorem forall₂_reports
    (c : Config) (rs : List Reference) :
    List.Forall₂ c.Reports (rs.filter fun r => c.Dangles r.target)
      (rs.flatMap fun r => (c.missing r.target).map (.mk r.owner.kind r.owner.name)) := by
  induction rs with
  | nil => exact .nil
  | cons r rest ih =>
      rw [List.flatMap_cons]
      rcases c.judged r.target with ⟨hnot, hnil⟩ | ⟨hdangles, m, hm, htells⟩
      · rw [List.filter_cons_of_neg (by simpa using hnot), hnil]
        exact ih
      · rw [List.filter_cons_of_pos (by simpa using hdangles), hm]
        exact .cons ⟨rfl, rfl, htells⟩ ih

/-- The check is sound and complete: it reports the references of the config that
dangle, each once and in their order, and nothing else. -/
theorem dangling_reports
    (c : Config) :
    List.Forall₂ c.Reports (c.references.filter fun r => c.Dangles r.target) c.dangling ∧
      (c.dangling = [] ↔ ∀ r ∈ c.references, ¬ c.Dangles r.target) := by
  have hreports := c.forall₂_reports c.references
  rw [← dangling_eq_flatMap] at hreports
  refine ⟨hreports, ?_⟩
  rw [← List.length_eq_zero_iff, ← hreports.length_eq, List.length_eq_zero_iff,
    List.filter_eq_nil_iff]
  simp only [decide_eq_true_eq]

end Order
end Config
end FlagStack
