import FlagStack.Error
import FlagStack.Resource

/-!
# Stacks

A stack collects resources and outputs under logical ids, in an environment of
partition, region and account.  A logical id is the letters and digits of the id
that is given; two resources, or two outputs, cannot have the same one.

A stack is written as a template, which shows the resources and outputs only.
-/

namespace FlagStack

/-- A value that a stack gives to the outside. -/
structure Output where
  value : Token
  description : Option String
deriving DecidableEq

namespace Output

def json (o : Output) : Json :=
  .object (Json.present
    [("Description", o.description.map .string), ("Value", some o.value.json)])

end Output

/-- The letters and digits of an id, of which there must be some. -/
def logicalIdOf (id : String) : Except Error String :=
  let kept := id.toList.filter Char.isAlphanum
  if kept.isEmpty then .error (.blankId id) else .ok (String.ofList kept)

structure Stack where
  name : String
  partition : String
  region : String
  account : String
  resources : Table Resource
  outputs : Table Output
deriving DecidableEq

namespace Stack

/-- A stack with nothing in it, in the default environment. -/
def empty (name : String) : Stack :=
  ⟨name, "aws", "us-east-1", "123456789012", Table.empty, Table.empty⟩

def withEnvironment (s : Stack) (account region : String) : Stack :=
  { s with account := account, region := region }

/-- The resource name of something in the environment of the stack. -/
def arnOf (s : Stack) (service resource : String) : String :=
  (Arn.mk s.partition service s.region s.account resource).text

/-- Something that is done to a stack and may fail.  What it has changed before
it fails stays changed. -/
abbrev Action (α : Type) : Type :=
  ExceptT Error (StateM Stack) α

/-- What comes of an action on a stack, and the stack after it. -/
def Action.on {α : Type} (a : Action α) (s : Stack) : Except Error α × Stack :=
  a.run.run s

/-- Adds a resource; the result is its logical id. -/
def register (id : String) (r : Resource) : Action String := do
  let key ← logicalIdOf id
  if (← get).resources.contains key then throw (.duplicateId key)
  modify fun s => { s with resources := s.resources.put key r }
  return key

/-- Adds an output. -/
def expose (id : String) (o : Output) : Action Unit := do
  let key ← logicalIdOf id
  if (← get).outputs.contains key then throw (.duplicateId key)
  modify fun s => { s with outputs := s.outputs.put key o }

/-- Number of resources. -/
def size (s : Stack) : Nat :=
  s.resources.size

/-- The template. -/
def template (s : Stack) : Json :=
  .object (Json.present
    [("Outputs", if s.outputs.isEmpty then none else some (.ofTable (s.outputs.map Output.json))),
     ("Resources", some (.ofTable (s.resources.map Resource.json)))])

/-- The template as a file has it. -/
def templateText (s : Stack) : String :=
  s.template.pretty

end Stack
end FlagStack
