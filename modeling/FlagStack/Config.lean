import FlagStack.Experiment
import FlagStack.Launch
import FlagStack.Shape.Reader

/-!
# Application configs

A config file lists everything that goes into one stack.  Reading it is one
thing, being valid another: a valid config has a stack name, and an account and
a region or neither.
-/

namespace FlagStack

structure Config where
  stackName : String
  account : Option String
  region : Option String
  projects : List Project
  features : List Feature
  experiments : List Experiment
  launches : List Launch
deriving DecidableEq

namespace Config

/-- Why a config is not valid. -/
inductive Fault where
  | blankStackName
  | halfEnvironment
deriving DecidableEq

def Fault.message : Fault → String
  | .blankStackName => "stackName must not be empty"
  | .halfEnvironment => "account and region must be given together"

def shape : Shape Config :=
  .named "AppConfig"
    (some ("An application file: everything that goes into one stack.\n\n" ++
      "Features, experiments and launches name their project with a string. If the\n" ++
      "string matches a project defined in the same file it resolves to that\n" ++
      "project's ARN; otherwise it is passed through as an external name or ARN.")) <|
    .record "AppConfig"
      (.cons (.required "stackName") .string <|
       .cons (.optional "account") (.option .string) <|
       .cons (.optional "region") (.option .string) <|
       .cons (.defaulted "projects" []) (.list Project.shape) <|
       .cons (.defaulted "features" []) (.list Feature.shape) <|
       .cons (.defaulted "experiments" []) (.list Experiment.shape) <|
       .cons (.defaulted "launches" []) (.list Launch.shape) <|
       .nil)
      (fun (stackName, account, region, projects, features, experiments, launches, ()) =>
        ⟨stackName, account, region, projects, features, experiments, launches⟩)
      (fun c =>
        (c.stackName, c.account, c.region, c.projects, c.features, c.experiments,
          c.launches, ()))

/-- The first fault of a config, if it has one. -/
def check (c : Config) : Except Fault Unit :=
  if Text.allBlank c.stackName then .error .blankStackName
  else if c.account.isSome ≠ c.region.isSome then .error .halfEnvironment
  else .ok ()

end Config
end FlagStack
