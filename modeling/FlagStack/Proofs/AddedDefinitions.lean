import FlagStack.Proofs.ConfigEdits
import FlagStack.Proofs.DanglingReports

/-!
# Definitions that are added

What becomes of references when a definition is added to a config.  A config that has the
projects and features of another, and in which a name means the same feature wherever it
has meant one, has something for every reference that the other has something for.

Adding a project gives such a config, and so does adding a feature under a new name.  The
references of the config stay where they are, with those of the definition that is added
between them.

A project takes away the reports that it is missing, and no others.  A feature can change
a report: where the feature has been missing, one of its variations may be.

**Results.**
* `Extends.dangles`: what dangles in such a config has dangled before.
* `exists_references_append`: the references of a config with a definition added.
* `missing_append_project`: what is missing for a reference after a project is added.
* `adding_keeps_references`: the reports before and after a definition is added.
-/

namespace FlagStack

namespace Missing

/-- The message tells that it is this project that is missing: the others start with
another letter. -/
theorem message_eq_iff
    {m : Missing} {name : String} :
    m.message = s!"project '{name}' is not defined" ↔ m = .project name := by
  constructor
  · intro h
    have hhead : m.message.toList.head? = some 'p' := by
      rw [h]
      simp [toString]
    cases m with
    | project other =>
        have hname : other = name := by simpa [message, toString] using h
        rw [hname]
    | feature | variation | treatment | group => simp [message, toString] at hhead
  · rintro rfl
    rfl

end Missing

namespace Config

/-- The config has the projects and features of another, and what a name has meant it
still means. -/
structure Extends (c' c : Config) : Prop where
  projects : ∀ p ∈ c.projects, p ∈ c'.projects
  features : ∀ f ∈ c.features, f ∈ c'.features
  lastNamed : ∀ name f, c'.LastNamed name f →
    c.LastNamed name f ∨ ∀ g ∈ c.features, g.name ≠ name

variable {c c' : Config}

section Extending

/-- What dangles in a config that extends another has dangled before. -/
theorem Extends.dangles
    (h : c'.Extends c) {target : Target} (hdangles : c'.Dangles target) :
    c.Dangles target := by
  cases target with
  | project reference =>
      cases reference with
      | «attribute» => exact hdangles
      | literal name => exact ⟨hdangles.1, fun p hp => hdangles.2 p (h.projects p hp)⟩
  | variation feature name =>
      obtain ⟨harn, hnone | ⟨f, hf, hmissing⟩⟩ := hdangles
      · exact ⟨harn, .inl fun f hf => hnone f (h.features f hf)⟩
      · rcases h.lastNamed feature f hf with hlast | hnone
        · exact ⟨harn, .inr ⟨f, hlast, hmissing⟩⟩
        · exact ⟨harn, .inl hnone⟩
  | treatment => exact hdangles
  | group => exact hdangles

theorem extends_append_project
    (c : Config) (p : Project) :
    (c.append (.project p)).Extends c :=
  ⟨fun _ => List.mem_append_left _, fun _ => id, fun _ _ => .inl⟩

/-- A feature under a new name takes no name from another. -/
theorem extends_append_feature
    {f : Feature} (hnew : ∀ g ∈ c.features, g.name ≠ f.name) :
    (c.append (.feature f)).Extends c := by
  refine ⟨fun _ => id, fun _ => List.mem_append_left _, ?_⟩
  rintro name g ⟨hname, before, behind, hsplit, hbehind⟩
  have hsplit : c.features ++ [f] = before ++ g :: behind := hsplit
  rcases List.eq_nil_or_concat behind with rfl | ⟨behind, last, rfl⟩
  · obtain ⟨-, heq⟩ := List.append_inj' hsplit rfl
    cases heq
    exact .inr (hname ▸ hnew)
  · have hsplit : c.features ++ [f] = (before ++ g :: behind) ++ [last] := by
      simpa using hsplit
    obtain ⟨hfeatures, -⟩ := List.append_inj' hsplit rfl
    exact .inl ⟨hname, before, behind, hfeatures, fun x hx => hbehind x (by simp [hx])⟩

end Extending

section Adding

/-- The definitions of a config stay where they are, with the one that is added among
them. -/
theorem exists_definitions_append
    (c : Config) (r : Resource) :
    ∃ before after, c.definitions = before ++ after ∧
      (c.append r).definitions = before ++ r :: after := by
  let projects := c.projects.map Resource.project
  let features := c.features.map Resource.feature
  let experiments := c.experiments.map Resource.experiment
  let launches := c.launches.map Resource.launch
  cases r with
  | project =>
      refine ⟨projects, features ++ experiments ++ launches, ?_⟩
      simp [definitions, members, append, projects, features, experiments, launches]
  | feature =>
      refine ⟨projects ++ features, experiments ++ launches, ?_⟩
      simp [definitions, members, append, projects, features, experiments, launches]
  | experiment =>
      refine ⟨projects ++ features ++ experiments, launches, ?_⟩
      simp [definitions, members, append, projects, features, experiments, launches]
  | launch =>
      refine ⟨projects ++ features ++ experiments ++ launches, [], ?_⟩
      simp [definitions, members, append, projects, features, experiments, launches]

/-- So do the references, with those of the definition that is added among them. -/
theorem exists_references_append
    (c : Config) (r : Resource) :
    ∃ before after, c.references = before ++ after ∧
      (c.append r).references = before ++ r.targets.map (.mk r) ++ after := by
  obtain ⟨before, after, hdefinitions, hdefinitions'⟩ := c.exists_definitions_append r
  let made := fun x : Resource => x.targets.map (Reference.mk x)
  refine ⟨before.flatMap made, after.flatMap made, ?_, ?_⟩
  · rw [references, hdefinitions, List.flatMap_append]
  · rw [references, hdefinitions', List.flatMap_append, List.flatMap_cons, List.append_assoc]

theorem tells_of_mem_missing
    {target : Target} {m : Missing} (hm : m ∈ c.missing target) :
    c.Tells target m := by
  rcases c.judged target with ⟨-, hnil⟩ | ⟨-, found, hfound, htells⟩
  · rw [hnil] at hm
    cases hm
  · rw [hfound, List.mem_singleton] at hm
    exact hm ▸ htells

/-- A project is missing no more once it is added, and whatever else is missing still is. -/
theorem missing_append_project
    (c : Config) (p : Project) (target : Target) :
    (c.append (.project p)).missing target =
      (c.missing target).filter fun m => m ≠ .project p.name := by
  -- This project is missing for references to it only.
  have hother (hne : target ≠ .project (.literal p.name)) :
      (c.missing target).filter (fun m => m ≠ .project p.name) = c.missing target := by
    refine List.filter_eq_self.2 fun m hm => decide_eq_true ?_
    rintro rfl
    cases tells_of_mem_missing hm
    exact hne rfl
  cases target with
  | project reference =>
      cases reference with
      | «attribute» => rfl
      | literal name =>
          by_cases hname : p.name = name
          · by_cases harn : isResourceName name
            · simp [missing, missingProject, harn]
            · simp [missing, missingProject, append, harn, hname]
          · rw [hother (by rintro ⟨⟩; exact hname rfl)]
            simp [missing, missingProject, append, hname]
  | variation | treatment | group =>
      refine (hother ?_).symm
      rintro ⟨⟩

/-- The reports that a project is missing go when it is added, and no other does. -/
theorem dangling_append_project
    (c : Config) (p : Project) :
    (c.append (.project p)).dangling =
      c.dangling.filter fun d => d.message ≠ s!"project '{p.name}' is not defined" := by
  have hreferences : (c.append (.project p)).references = c.references := by
    simp [references, definitions, members, append, Resource.targets]
  have hmessage : (fun d : Dangling => decide (d.message ≠ s!"project '{p.name}' is not defined")) =
      fun d => decide (d.missing ≠ .project p.name) :=
    funext fun d => by simp only [Dangling.message, ne_eq, Missing.message_eq_iff]
  rw [dangling_eq_flatMap, dangling_eq_flatMap, hreferences, hmessage, List.filter_flatMap]
  refine List.flatMap_congr fun x _ => ?_
  rw [missing_append_project, List.filter_map]
  rfl

/-- The check reports the references that dangle, each once and in order. -/
theorem forall₂_dangling
    (c : Config) :
    List.Forall₂ c.Reports (c.references.filter fun x => c.Dangles x.target) c.dangling := by
  have hreports := c.forall₂_reports c.references
  rwa [← dangling_eq_flatMap] at hreports

/-- Adding a definition keeps the references of a config.  Each stays where it is, and if
it is reported afterwards it has been reported before. -/
structure KeepsReferences (c : Config) (r : Resource) : Prop where
  references : ∃ before after, c.references = before ++ after ∧
    (c.append r).references = before ++ r.targets.map (.mk r) ++ after
  reports_before :
    List.Forall₂ c.Reports (c.references.filter fun x => c.Dangles x.target) c.dangling
  reports_after :
    List.Forall₂ (c.append r).Reports
      ((c.append r).references.filter fun x => (c.append r).Dangles x.target)
      (c.append r).dangling
  dangles : ∀ x ∈ c.references, (c.append r).Dangles x.target → c.Dangles x.target

theorem Extends.keepsReferences
    {r : Resource} (h : (c.append r).Extends c) :
    c.KeepsReferences r where
  references := c.exists_references_append r
  reports_before := c.forall₂_dangling
  reports_after := (c.append r).forall₂_dangling
  dangles := fun _ _ => h.dangles

/-- Adding a project, or a feature under a new name, breaks no reference.  A project takes
away exactly the reports that it is not defined. -/
theorem adding_keeps_references
    (c : Config) :
    (∀ p : Project,
      c.KeepsReferences (.project p) ∧
        (c.append (.project p)).dangling =
          c.dangling.filter fun d => d.message ≠ s!"project '{p.name}' is not defined") ∧
      ∀ f : Feature, (∀ g ∈ c.features, g.name ≠ f.name) → c.KeepsReferences (.feature f) := by
  refine ⟨fun p => ⟨?_, c.dangling_append_project p⟩, fun f hnew => ?_⟩
  · exact (c.extends_append_project p).keepsReferences
  · exact (extends_append_feature hnew).keepsReferences

/-- A launch that serves a variation of a feature before there is the feature. -/
def ahead : Config where
  stackName := "s"
  account := none
  region := none
  projects := []
  features := []
  experiments := []
  launches :=
    [⟨"ramp", .literal "shop", [⟨"flag", "half", "on", none⟩], [], none, none, Table.empty⟩]

/-- The feature, which has another variation. -/
def flag : Feature :=
  ⟨"flag", .literal "shop", [⟨some "off", .boolean false⟩], [], none, none, none, Table.empty⟩

theorem ahead_kept :
    (∀ g ∈ ahead.features, g.name ≠ flag.name) ∧
      ahead.KeepsReferences (.feature flag) ∧
      ahead.dangling =
        [⟨.launch, "ramp", .project "shop"⟩, ⟨.launch, "ramp", .feature "flag"⟩] ∧
      (ahead.append (.feature flag)).dangling =
        [⟨.feature, "flag", .project "shop"⟩, ⟨.launch, "ramp", .project "shop"⟩,
          ⟨.launch, "ramp", .variation "flag" "on"⟩] := by
  have hnew : ∀ g ∈ ahead.features, g.name ≠ flag.name := nofun
  exact ⟨hnew, ahead.adding_keeps_references.2 flag hnew, by decide, by decide⟩

end Adding

end Config
end FlagStack
