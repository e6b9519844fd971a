import FlagStack.Kind
import FlagStack.Shape.Writer
import FlagStack.Token

/-!
# Projects

A project holds features, experiments and launches.  It may deliver its
evaluation events to a log group or to a bucket, but not to both.

What is common to all four kinds of definitions stands here too: tags, and the
reference to the project that a definition belongs to.
-/

namespace FlagStack

/-- Tags by key. -/
abbrev Tags : Type := Table String

namespace Tags

def field : Field Tags :=
  .defaulted "tags" Table.empty

/-- The form in a template: absent when there are no tags. -/
def property (tags : Tags) : Option Json :=
  if tags.isEmpty then none
  else
    some <| .array <| tags.entries.map fun (key, value) =>
      .object [("Key", .string key), ("Value", .string value)]

end Tags

/-- A list as a property that is absent when the list is empty. -/
def nonEmptyProperty {α : Type} (render : α → Json) (items : List α) : Option Json :=
  if items.isEmpty then none else some (.array (items.map render))

/-- The project that a definition belongs to, by name or resource name. -/
def projectReference : Shape Token :=
  .named "ProjectRef" (some "Project name or ARN") <|
    .wrapped .literal Token.json

structure Bucket where
  name : String
  keyPrefix : Option String
deriving DecidableEq

namespace Bucket

def shape : Shape Bucket :=
  .named "S3Destination" none <|
    .record "S3Destination"
      (.cons (.required "bucketName") .string <|
       .cons ((Field.optional "prefix").described "Key prefix inside the bucket.")
         (.option .string) <|
       .nil)
      (fun (name, keyPrefix, ()) => ⟨name, keyPrefix⟩)
      (fun b => (b.name, b.keyPrefix, ()))

def properties (b : Bucket) : Json :=
  .object (Json.present
    [("BucketName", some (.string b.name)),
     ("Prefix", b.keyPrefix.map .string)])

end Bucket

/-- Where evaluation events go. -/
inductive Delivery where
  | logGroup (name : String)
  | bucket (b : Bucket)
deriving DecidableEq

namespace Delivery

def ofSum : String ⊕ Bucket → Delivery
  | .inl name => .logGroup name
  | .inr b => .bucket b

def toSum : Delivery → String ⊕ Bucket
  | .logGroup name => .inl name
  | .bucket b => .inr b

def shape : Shape Delivery :=
  .named "DataDelivery"
    (some ("Destination for evaluation events.\n\n" ++
      "A project delivers to a CloudWatch Logs log group or an S3 bucket, never both.")) <|
    .mapped
      (.either
        ((Field.required "logGroup").described "Name of the CloudWatch Logs log group.")
        .string
        (.required "s3") Bucket.shape)
      ofSum toSum

def properties : Delivery → Json
  | .logGroup name => .object [("LogGroup", .string name)]
  | .bucket b => .object [("S3", b.properties)]

end Delivery

structure Project where
  name : String
  description : Option String
  delivery : Option Delivery
  tags : Tags
deriving DecidableEq

namespace Project

def shape : Shape Project :=
  .named "ProjectProps"
    (some ("Props for an Evidently project.\n\n" ++
      "Projects are the top-level organizational unit. Features, experiments and\n" ++
      "launches all belong to exactly one project. `name` is the physical name of\n" ++
      "the project and must be unique in the account and region; that is checked\n" ++
      "by CloudFormation, not here.")) <|
    .record "ProjectProps"
      (.cons (.required "name") .string <|
       .cons (.optional "description") (.option .string) <|
       .cons
         ((Field.optional "dataDelivery").described
           "Where evaluation events are stored. `None` keeps them inside Evidently.")
         (.option Delivery.shape) <|
       .cons Tags.field .textTable <|
       .nil)
      (fun (name, description, delivery, tags, ()) => ⟨name, description, delivery, tags⟩)
      (fun p => (p.name, p.description, p.delivery, p.tags, ()))

/-- The properties of its resource, in increasing order of their names. -/
def properties (p : Project) : Json :=
  .object (Json.present
    [("DataDelivery", p.delivery.map Delivery.properties),
     ("Description", p.description.map .string),
     ("Name", some (.string p.name)),
     ("Tags", p.tags.property)])

end Project
end FlagStack
