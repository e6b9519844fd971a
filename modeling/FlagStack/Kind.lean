/-!
# Kinds of resources

The four kinds of resources that an application is made of.
-/

namespace FlagStack

inductive Kind where
  | project
  | feature
  | experiment
  | launch
deriving DecidableEq

namespace Kind

/-- The kind as the head of a construct id. -/
def label : Kind → String
  | .project => "Project"
  | .feature => "Feature"
  | .experiment => "Experiment"
  | .launch => "Launch"

/-- The kind in a message and in the path of a resource name. -/
def noun : Kind → String
  | .project => "project"
  | .feature => "feature"
  | .experiment => "experiment"
  | .launch => "launch"

/-- The type of its resources in a template. -/
def resourceType (kind : Kind) : String :=
  "AWS::Evidently::" ++ kind.label

end Kind
end FlagStack
