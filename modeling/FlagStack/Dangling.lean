import FlagStack.Config
import FlagStack.Kind

/-!
# Dangling references

Definitions refer to each other by name.  A reference dangles when nothing in
the config has that name.  References by resource name lead out of the config
and never dangle.

A variation is looked up in the last feature of its name, a treatment or group
only in the experiment or launch that refers to it.
-/

namespace FlagStack

/-- What a reference names that is not there. -/
inductive Missing where
  | project (name : String)
  | feature (name : String)
  | variation (owner name : String)
  | treatment (name : String)
  | group (start : Instant) (name : String)
deriving DecidableEq

namespace Missing

def message : Missing → String
  | .project name => s!"project '{name}' is not defined"
  | .feature name => s!"feature '{name}' is not defined"
  | .variation owner name => s!"feature '{owner}' has no variation '{name}'"
  | .treatment name => s!"treatment '{name}' is not defined"
  | .group start name => s!"step at {start.label} names unknown group '{name}'"

end Missing

/-- A reference that dangles, with the definition that makes it. -/
structure Dangling where
  kind : Kind
  owner : String
  missing : Missing
deriving DecidableEq

namespace Dangling

def ownerLabel (d : Dangling) : String :=
  s!"{d.kind.noun} '{d.owner}'"

def message (d : Dangling) : String :=
  d.missing.message

def label (d : Dangling) : String :=
  s!"{d.ownerLabel}: {d.message}"

end Dangling

/-- A resource name in place of a name. -/
def isResourceName (s : String) : Bool :=
  ['a', 'r', 'n', ':'].isPrefixOf s.toList

namespace Config

/-- The last feature with a name. -/
def feature? (c : Config) (name : String) : Option Feature :=
  c.features.reverse.find? fun f => f.name == name

/-- What is missing for a reference to a project. -/
def missingProject (c : Config) : Token → List Missing
  | .attribute .. => []
  | .literal name =>
      if isResourceName name || c.projects.any fun p => p.name == name then []
      else [.project name]

/-- What is missing for a reference to a variation of a feature. -/
def missingVariation (c : Config) (feature name : String) : List Missing :=
  if isResourceName feature then []
  else
    match c.feature? feature with
    | none => [.feature feature]
    | some f => if f.variations.any fun v => v.name == name then [] else [.variation feature name]

def missingOfFeature (c : Config) (f : Feature) : List Missing :=
  c.missingProject f.project ++
    (f.overrides.map Override.variation ++ f.defaultVariation.toList).flatMap
      (c.missingVariation f.name)

def missingOfExperiment (c : Config) (e : Experiment) : List Missing :=
  c.missingProject e.project ++
    e.treatments.flatMap (fun t => c.missingVariation t.feature t.variation) ++
    (e.split.control.toList ++ e.split.weights.map TreatmentWeight.treatment).flatMap
      fun name => if e.treatments.any fun t => t.name == name then [] else [.treatment name]

def missingOfLaunch (c : Config) (l : Launch) : List Missing :=
  c.missingProject l.project ++
    l.groups.flatMap (fun g => c.missingVariation g.feature g.variation) ++
    l.steps.flatMap fun step =>
      (step.weights.map GroupWeight.group).flatMap fun name =>
        if l.groups.any fun g => g.name == name then [] else [.group step.start name]

/-- The references that dangle, in the order of the config. -/
def dangling (c : Config) : List Dangling :=
  c.features.flatMap (fun f => (c.missingOfFeature f).map (.mk .feature f.name)) ++
    c.experiments.flatMap (fun e => (c.missingOfExperiment e).map (.mk .experiment e.name)) ++
    c.launches.flatMap fun l => (c.missingOfLaunch l).map (.mk .launch l.name)

end Config
end FlagStack
