import FlagStack.Stack

/-!
# Constructs

A construct is made in one of two ways.  Creating it checks its definition,
registers the resource with a stack and leaves the resource name to be known
after deployment.  Importing it registers nothing: the name, and for all kinds
but projects the project, are taken from the resource name that is given.

Either way the result is a handle, by which later definitions refer to it.
-/

namespace FlagStack

/-- A project, created or imported. -/
structure ProjectHandle where
  name : String
  arn : Token
  logicalId : Option String
deriving DecidableEq

/-- A feature, experiment or launch, created or imported, with the parts of it
that are known. -/
structure Handle (Part : Type) where
  name : String
  arn : Token
  project : Option Token
  parts : List Part
  logicalId : Option String
deriving DecidableEq

abbrev FeatureHandle : Type := Handle Variation

abbrev ExperimentHandle : Type := Handle Treatment

abbrev LaunchHandle : Type := Handle Group

/-- Parts of a resource name that an import takes. -/
structure Imported where
  project : Option String
  name : String

namespace Imported

def ofArn (arn : String) : Except Error Imported := do
  let parsed ← (Arn.parse arn).mapError .arn
  let name ← parsed.name.mapError .arn
  return ⟨parsed.nameAfter "project", name⟩

end Imported

namespace ProjectHandle

def isImported (h : ProjectHandle) : Bool :=
  h.logicalId.isNone

/-- The project with a resource name. -/
def ofArn (arn : String) : Except Error ProjectHandle := do
  let imported ← Imported.ofArn arn
  return ⟨imported.name, .literal arn, none⟩

/-- The project with a name, in the environment of a stack. -/
def ofName (s : Stack) (name : String) : ProjectHandle :=
  ⟨name, .literal (s.arnOf "evidently" ("project/" ++ name)), none⟩

end ProjectHandle

namespace Handle

variable {Part : Type}

def isImported (h : Handle Part) : Bool :=
  h.logicalId.isNone

/-- What has a resource name, and the parts of it that the caller knows. -/
def ofArn (arn : String) (parts : List Part) : Except Error (Handle Part) := do
  let imported ← Imported.ofArn arn
  return ⟨imported.name, .literal arn, imported.project.map .literal, parts, none⟩

end Handle

/-- A feature needs a variation, and numbers need a JSON form. -/
def Feature.check (f : Feature) : Except Error Unit := do
  if f.variations.isEmpty then throw (.noVariations f.name)
  match f.variations.find? fun v => v.value.isNonFinite with
  | some v => throw (.nonFinite f.name v.name)
  | none => return ()

/-- An experiment has a greatest number of goals. -/
def Experiment.check (e : Experiment) : Except Error Unit :=
  if e.goals.length ≤ maxGoals then .ok () else .error (.tooManyGoals e.name e.goals.length)

/-- A launch has a greatest number of groups. -/
def Launch.check (l : Launch) : Except Error Unit :=
  if l.groups.length ≤ maxGroups then .ok ()
  else .error (.tooManyGroups l.name l.groups.length)

/-- What a definition has to meet before its resource is registered. -/
def Resource.check : Resource → Except Error Unit
  | .project _ => .ok ()
  | .feature f => f.check
  | .experiment e => e.check
  | .launch l => l.check

namespace Stack

/-- Checks a definition and registers its resource. -/
def create (id : String) (r : Resource) : Action String := do
  r.check
  register id r

def createProject (id : String) (p : Project) : Action ProjectHandle := do
  let key ← create id (.project p)
  return ⟨p.name, .arnOf key, some key⟩

def createFeature (id : String) (f : Feature) : Action FeatureHandle := do
  let key ← create id (.feature f)
  return ⟨f.name, .arnOf key, some f.project, f.variations, some key⟩

def createExperiment (id : String) (e : Experiment) : Action ExperimentHandle := do
  let key ← create id (.experiment e)
  return ⟨e.name, .arnOf key, some e.project, e.treatments, some key⟩

def createLaunch (id : String) (l : Launch) : Action LaunchHandle := do
  let key ← create id (.launch l)
  return ⟨l.name, .arnOf key, some l.project, l.groups, some key⟩

end Stack
end FlagStack
