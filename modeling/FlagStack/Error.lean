import FlagStack.Arn
import FlagStack.Dangling

/-!
# Errors

Everything that can be wrong with a config, a construct or an import.  Each
constructor is one cause; its kind is the class of causes that its message
begins with.
-/

namespace FlagStack

inductive Error where
  /-- A construct id without letters and digits. -/
  | blankId (id : String)
  | noVariations (feature : String)
  /-- A number that is infinite or no number at all. -/
  | nonFinite (feature variation : String)
  | tooManyGoals (experiment : String) (count : Nat)
  | tooManyGroups (launch : String) (count : Nat)
  | arn (fault : Arn.Fault)
  | duplicateId (logicalId : String)
  | dangling (references : List Dangling)
  | config (fault : Config.Fault)
  | json (fault : Json.Error)
deriving DecidableEq

/-- Classes of errors. -/
inductive ErrorKind where
  | invalidArgument
  | invalidArn
  | duplicateLogicalId
  | danglingReference
  | config
  | json
deriving DecidableEq

/-- Greatest number of metric goals of an experiment. -/
def maxGoals : Nat := 3

/-- Greatest number of groups of a launch. -/
def maxGroups : Nat := 5

namespace ErrorKind

def label : ErrorKind → String
  | .invalidArgument => "Invalid argument"
  | .invalidArn => "Invalid ARN"
  | .duplicateLogicalId => "Duplicate logical id"
  | .danglingReference => "Dangling reference"
  | .config => "Config error"
  | .json => "JSON error"

end ErrorKind

namespace Error

def kind : Error → ErrorKind
  | .blankId _ | .noVariations _ | .nonFinite .. | .tooManyGoals .. | .tooManyGroups .. =>
      .invalidArgument
  | .arn _ => .invalidArn
  | .duplicateId _ => .duplicateLogicalId
  | .dangling _ => .danglingReference
  | .config _ => .config
  | .json _ => .json

/-- What is wrong, without the class. -/
def detail : Error → String
  | .blankId id => s!"construct id '{id}' has no alphanumeric characters"
  | .noVariations feature => s!"feature '{feature}' must have at least one variation"
  | .nonFinite feature variation =>
      s!"feature '{feature}' variation '{variation}' has a non-finite double value"
  | .tooManyGoals experiment count =>
      s!"experiment '{experiment}' has {count} metric goals, at most {maxGoals} are allowed"
  | .tooManyGroups launch count =>
      s!"launch '{launch}' has {count} groups, at most {maxGroups} are allowed"
  | .arn fault => fault.message
  | .duplicateId logicalId => logicalId
  | .dangling references => "; ".intercalate (references.map Dangling.label)
  | .config fault => fault.message
  | .json fault => fault.message

def message (e : Error) : String :=
  s!"{e.kind.label}: {e.detail}"

/-- The error and what caused it, the outermost first. -/
def chain (e : Error) : List String :=
  match e with
  | .json fault => [e.message, fault.message]
  | _ => [e.message]

end Error
end FlagStack
