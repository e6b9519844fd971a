import FlagStack.Construct
import FlagStack.Digest
import FlagStack.EntryId

/-!
# Synthesis

Synthesis makes a stack of a config: projects first, then features, experiments
and launches, so that a reference to a project of the same config becomes a
reference to its resource.

A config that is not valid is refused, and under the strict option one with
dangling references.  Further errors are those of the constructs, in order.
-/

namespace FlagStack
namespace Synthesis

structure Options where
  /-- Refuse dangling references. -/
  strict : Bool
  /-- Add the resource name of every resource to the outputs. -/
  outputs : Bool
deriving DecidableEq

/-- What has been made so far. -/
structure State where
  stack : Stack
  ids : EntryIds
  /-- The projects of the config, by name. -/
  projects : List (String × ProjectHandle)

namespace State

variable (digest : String → String) (options : Options)

/-- The id of an entry. -/
def assign (st : State) (kind : Kind) (name : String) : String × State :=
  let (id, ids) := st.ids.assign digest ⟨kind.label, name⟩
  (id, { st with ids := ids })

/-- Takes an action on the stack. -/
def act {α : Type} (st : State) (a : Stack.Action α) : Except Error (α × State) := do
  let (outcome, stack) := a.on st.stack
  return (← outcome, { st with stack := stack })

/-- Adds a resource name to the outputs, if that is asked for. -/
def exposeArn (st : State) (id : String) (arn : Token) : Except Error State := do
  if options.outputs then
    let (_, st) ← st.act (Stack.expose (id ++ "Arn") ⟨arn, none⟩)
    return st
  else return st

/-- A reference to a project, resolved where the config defines the project. -/
def resolve (st : State) (project : Token) : Token :=
  match project.literal?.bind fun name => st.projects.lookup name with
  | some handle => handle.arn
  | none => project

/-- Creates a construct under the id of its entry, and exposes its resource
name. -/
def place {H : Type} (st : State) (kind : Kind) (name : String)
    (create : String → Stack.Action H) (arn : H → Token) : Except Error (H × State) := do
  let (id, st) := st.assign digest kind name
  let (handle, st) ← st.act (create id)
  return (handle, ← st.exposeArn options id (arn handle))

def addProject (st : State) (p : Project) : Except Error State := do
  let (handle, st) ←
    st.place digest options .project p.name (Stack.createProject · p) ProjectHandle.arn
  return { st with projects := (handle.name, handle) :: st.projects }

def addFeature (st : State) (f : Feature) : Except Error State := do
  let f := { f with project := st.resolve f.project }
  let (_, st) ← st.place digest options .feature f.name (Stack.createFeature · f) Handle.arn
  return st

def addExperiment (st : State) (e : Experiment) : Except Error State := do
  let e := { e with project := st.resolve e.project }
  let (_, st) ←
    st.place digest options .experiment e.name (Stack.createExperiment · e) Handle.arn
  return st

def addLaunch (st : State) (l : Launch) : Except Error State := do
  let l := { l with project := st.resolve l.project }
  let (_, st) ← st.place digest options .launch l.name (Stack.createLaunch · l) Handle.arn
  return st

end State

/-- The empty stack of a config. -/
def emptyStack (c : Config) : Stack :=
  match c.account, c.region with
  | some account, some region => (Stack.empty c.stackName).withEnvironment account region
  | _, _ => Stack.empty c.stackName

end Synthesis

namespace Config

/-- The dangling references of a config; under the strict option there must be
none. -/
def tolerated (c : Config) (strict : Bool) : Except Error (List Dangling) :=
  if strict && !c.dangling.isEmpty then .error (.dangling c.dangling) else .ok c.dangling

/-- The stack of a config, with a digest for names that an id cannot hold. -/
def synthesizeWith (digest : String → String) (c : Config) (options : Synthesis.Options) :
    Except Error Stack := do
  c.check.mapError .config
  let _ ← c.tolerated options.strict
  let st : Synthesis.State := ⟨Synthesis.emptyStack c, .empty, []⟩
  let st ← c.projects.foldlM (Synthesis.State.addProject digest options) st
  let st ← c.features.foldlM (Synthesis.State.addFeature digest options) st
  let st ← c.experiments.foldlM (Synthesis.State.addExperiment digest options) st
  let st ← c.launches.foldlM (Synthesis.State.addLaunch digest options) st
  return st.stack

/-- The stack of a config. -/
def synthesize (c : Config) (options : Synthesis.Options) : Except Error Stack :=
  c.synthesizeWith Digest.ofText options

/-- The valid config that a text holds. -/
def decode (text : String) : Except Error Config := do
  let c ← (Config.shape.decode text).mapError .json
  c.check.mapError .config
  return c

end Config
end FlagStack
