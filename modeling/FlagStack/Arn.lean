import FlagStack.Text.Split

/-!
# Amazon resource names

A resource name is written `arn:partition:service:region:account:resource`.
The resource is all that stands behind the fifth colon; further colons belong
to it.  Evidently writes it as a path of kinds and names, such as
`project/p/feature/f`.
-/

namespace FlagStack

structure Arn where
  partition : String
  service : String
  region : String
  account : String
  resource : String
deriving DecidableEq

namespace Arn

/-- The parts behind the scheme, in order. -/
inductive Part where
  | partition
  | service
  | region
  | account
  | resource
deriving DecidableEq

def Part.label : Part → String
  | .partition => "partition"
  | .service => "service"
  | .region => "region"
  | .account => "account"
  | .resource => "resource"

/-- Why a text is no resource name, or a resource has no name. -/
inductive Fault where
  | otherScheme (text : String)
  | missing (text : String) (part : Part)
  | emptyPart (text : String)
  | unnamed (text : String)
deriving DecidableEq

def Fault.message : Fault → String
  | .otherScheme text => s!"'{text}' does not start with 'arn:'"
  | .missing text part => s!"'{text}' is missing the {part.label}"
  | .emptyPart text => s!"'{text}' has an empty partition, service or resource"
  | .unnamed text => s!"'{text}' has no resource name"

/-- The written form. -/
def text (a : Arn) : String :=
  s!"arn:{a.partition}:{a.service}:{a.region}:{a.account}:{a.resource}"

/-- Reads the written form. -/
def parse (text : String) : Except Fault Arn :=
  match (Text.splitFirst ':' 5 text.toList).map String.ofList with
  | "arn" :: parts =>
      match parts with
      | [] => .error (.missing text .partition)
      | [_] => .error (.missing text .service)
      | [_, _] => .error (.missing text .region)
      | [_, _, _] => .error (.missing text .account)
      | [_, _, _, _] => .error (.missing text .resource)
      | partition :: service :: region :: account :: resource :: _ =>
          if partition.isEmpty || service.isEmpty || resource.isEmpty then
            .error (.emptyPart text)
          else .ok ⟨partition, service, region, account, resource⟩
  | _ => .error (.otherScheme text)

/-- The name of the resource: the last piece of its path. -/
def name (a : Arn) : Except Fault String :=
  let name := Text.lastPiece (fun c => c = '/' || c = ':') a.resource.toList
  if name.isEmpty then .error (.unnamed a.text) else .ok (String.ofList name)

/-- The piece that follows the first piece equal to `kind`. -/
def following (kind : String) : List String → Option String
  | [] => none
  | piece :: rest => if piece = kind then rest.head? else following kind rest

/-- The name that follows a kind in the path of the resource. -/
def nameAfter (a : Arn) (kind : String) : Option String :=
  (following kind ((Text.split '/' a.resource.toList).map String.ofList)).filter
    fun name => !name.isEmpty

end Arn
end FlagStack
