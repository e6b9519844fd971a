import FlagStack.Experiment
import FlagStack.Launch

/-!
# Resources of a template

A resource is a definition that has been registered, its reference to a project
resolved.  In a template it is written as its type with its properties.
-/

namespace FlagStack

inductive Resource where
  | project (p : Project)
  | feature (f : Feature)
  | experiment (e : Experiment)
  | launch (l : Launch)
deriving DecidableEq

namespace Resource

def kind : Resource → Kind
  | .project _ => .project
  | .feature _ => .feature
  | .experiment _ => .experiment
  | .launch _ => .launch

/-- The physical name. -/
def name : Resource → String
  | .project p => p.name
  | .feature f => f.name
  | .experiment e => e.name
  | .launch l => l.name

/-- The reference to the project that the resource belongs to. -/
def project? : Resource → Option Token
  | .project _ => none
  | .feature f => some f.project
  | .experiment e => some e.project
  | .launch l => some l.project

def properties : Resource → Json
  | .project p => p.properties
  | .feature f => f.properties
  | .experiment e => e.properties
  | .launch l => l.properties

/-- The form in a template. -/
def json (r : Resource) : Json :=
  .object [("Properties", r.properties), ("Type", .string r.kind.resourceType)]

end Resource
end FlagStack
