import FlagStack.Construct

/-!
# Sessions

A session is a stack with the handles that have been obtained so far.  A step
creates or imports a construct, adds an output or sets the environment.
-/

namespace FlagStack

/-- A handle of any kind. -/
inductive AnyHandle where
  | project (h : ProjectHandle)
  | feature (h : FeatureHandle)
  | experiment (h : ExperimentHandle)
  | launch (h : LaunchHandle)
deriving DecidableEq

namespace AnyHandle

def kind : AnyHandle → Kind
  | .project _ => .project
  | .feature _ => .feature
  | .experiment _ => .experiment
  | .launch _ => .launch

def name : AnyHandle → String
  | .project h => h.name
  | .feature h => h.name
  | .experiment h => h.name
  | .launch h => h.name

def arn : AnyHandle → Token
  | .project h => h.arn
  | .feature h => h.arn
  | .experiment h => h.arn
  | .launch h => h.arn

def logicalId : AnyHandle → Option String
  | .project h => h.logicalId
  | .feature h => h.logicalId
  | .experiment h => h.logicalId
  | .launch h => h.logicalId

def isImported (h : AnyHandle) : Bool :=
  h.logicalId.isNone

end AnyHandle

/-- The project of a definition: a text, or a project obtained before. -/
inductive ProjectSource where
  | text (s : String)
  | handle (h : ProjectHandle)
deriving DecidableEq

/-- The reference by which a definition is registered. -/
def ProjectSource.token : ProjectSource → Token
  | .text s => .literal s
  | .handle h => h.arn

/-- The value of an output: a token, or the resource name of a handle. -/
inductive OutputSource where
  | token (t : Token)
  | handle (h : AnyHandle)
deriving DecidableEq

def OutputSource.value : OutputSource → Token
  | .token t => t
  | .handle h => h.arn

/-- A step.  A definition that is created takes the project beside it. -/
inductive Step where
  | createProject (id : String) (p : Project)
  | createFeature (id : String) (source : ProjectSource) (f : Feature)
  | createExperiment (id : String) (source : ProjectSource) (e : Experiment)
  | createLaunch (id : String) (source : ProjectSource) (l : Launch)
  | projectOfArn (arn : String)
  | projectOfName (name : String)
  | featureOfArn (arn : String) (variations : List Variation)
  | experimentOfArn (arn : String) (treatments : List Treatment)
  | launchOfArn (arn : String) (groups : List Group)
  | expose (id : String) (source : OutputSource) (description : Option String)
  | setEnvironment (account region : String)
deriving DecidableEq

namespace Step

/-- A step as an action on the stack.  Its result is the handle that it gives. -/
def action : Step → Stack.Action (Option AnyHandle)
  | .createProject id p => do
      return some (.project (← Stack.createProject id p))
  | .createFeature id source f => do
      return some (.feature (← Stack.createFeature id { f with project := source.token }))
  | .createExperiment id source e => do
      return some (.experiment (← Stack.createExperiment id { e with project := source.token }))
  | .createLaunch id source l => do
      return some (.launch (← Stack.createLaunch id { l with project := source.token }))
  | .projectOfArn arn => do
      return some (.project (← ProjectHandle.ofArn arn))
  | .projectOfName name => do
      return some (.project (ProjectHandle.ofName (← get) name))
  | .featureOfArn arn variations => do
      return some (.feature (← Handle.ofArn arn variations))
  | .experimentOfArn arn treatments => do
      return some (.experiment (← Handle.ofArn arn treatments))
  | .launchOfArn arn groups => do
      return some (.launch (← Handle.ofArn arn groups))
  | .expose id source description => do
      Stack.expose id ⟨source.value, description⟩
      return none
  | .setEnvironment account region => do
      modify fun s => s.withEnvironment account region
      return none

end Step

structure Session where
  stack : Stack
  handles : List AnyHandle
deriving DecidableEq

namespace Session

/-- A session with an empty stack and no handles. -/
def empty (name : String) : Session :=
  ⟨Stack.empty name, []⟩

/-- The session after a step.  A handle is kept if the step gives one; the stack
is what the step leaves, also where it fails. -/
def next (se : Session) (s : Step) : Session :=
  match s.action.on se.stack with
  | (.ok (some h), stack) => ⟨stack, se.handles ++ [h]⟩
  | (.ok none, stack) => ⟨stack, se.handles⟩
  | (.error _, stack) => ⟨stack, se.handles⟩

/-- Takes a step: the handle that it gives, if any, and the session after it. -/
def step (se : Session) (s : Step) : Except Error (Option AnyHandle × Session) := do
  let h ← (s.action.on se.stack).1
  return (h, se.next s)

/-- The session after some steps. -/
def run (se : Session) (steps : List Step) : Session :=
  steps.foldl next se

end Session
end FlagStack
