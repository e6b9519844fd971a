import FlagStack.Project
import FlagStack.Variation

/-!
# Features

A feature is a flag with one or more variations.  Single entities may be tied
to a variation, and one variation may be the default.
-/

namespace FlagStack

/-- The feature that a treatment or group serves, by name. -/
def featureReference : Shape String :=
  .named "FeatureRef" (some "Feature name") .string

/-- The variation that a treatment or group serves, by name. -/
def variationReference : Shape String :=
  .named "VariationRef" (some "Variation name") .string

/-- When the default variation is served. -/
inductive Evaluation where
  | allRules
  | defaultVariation
deriving DecidableEq

namespace Evaluation

def label : Evaluation → String
  | .allRules => "ALL_RULES"
  | .defaultVariation => "DEFAULT_VARIATION"

def shape : Shape Evaluation :=
  .named "EvaluationStrategy"
    (some ("How a feature is evaluated when launches or experiments are running.\n\n" ++
      "- `AllRules`: launches and experiments apply\n" ++
      "- `DefaultVariation`: everyone gets the default variation")) <|
    .choice ([allRules, defaultVariation].map fun e => (e.label, e)) label

end Evaluation

/-- Ties one entity to a variation. -/
structure Override where
  entity : String
  variation : String
deriving DecidableEq

namespace Override

def shape : Shape Override :=
  .named "EntityOverride"
    (some ("Forces a specific entity (user id, session id, ...) onto a variation.\n\n" ++
      "The variation is referenced by name and is not checked against the\n" ++
      "feature's variations.")) <|
    .record "EntityOverride"
      (.cons (.required "entityId") .string <|
       .cons ((Field.required "variationName").alsoNamed "variation") .string <|
       .nil)
      (fun (entity, variation, ()) => ⟨entity, variation⟩)
      (fun o => (o.entity, o.variation, ()))

def properties (o : Override) : Json :=
  .object [("EntityId", .string o.entity), ("Variation", .string o.variation)]

end Override

structure Feature where
  name : String
  project : Token
  variations : List Variation
  overrides : List Override
  description : Option String
  evaluation : Option Evaluation
  defaultVariation : Option String
  tags : Tags
deriving DecidableEq

/-- The properties of a variation: its name if it has one, and its value under
the name of its type. -/
def Variation.properties (v : Variation) : Json :=
  let value :=
    match v.value with
    | .boolean _ => ("BooleanValue", v.value.json)
    | .double _ => ("DoubleValue", v.value.json)
    | .long _ => ("LongValue", v.value.json)
    | .string _ => ("StringValue", v.value.json)
  .object (Json.present
    [(value.1, some value.2),
     ("VariationName", v.label.map .string)])

namespace Feature

def shape : Shape Feature :=
  .named "FeatureProps"
    (some ("Props for an Evidently feature.\n\n" ++
      "A feature is a flag with a set of typed variations. At least one variation\n" ++
      "is required; the feature construct rejects an empty list.")) <|
    .record "FeatureProps"
      (.cons (.required "name") .string <|
       .cons (.required "project") projectReference <|
       .cons (.required "variations") (.list Variation.shape) <|
       .cons
         ((Field.defaulted "entityOverrides" []).described
           "Entities that always receive a given variation.")
         (.list Override.shape) <|
       .cons (.optional "description") (.option .string) <|
       .cons (.optional "evaluationStrategy") (.option Evaluation.shape) <|
       .cons
         ((Field.optional "defaultVariation").described
           "Name of the variation served when no launch or experiment applies.")
         (.option .string) <|
       .cons Tags.field .textTable <|
       .nil)
      (fun (name, project, variations, overrides, description, evaluation,
          defaultVariation, tags, ()) =>
        ⟨name, project, variations, overrides, description, evaluation,
          defaultVariation, tags⟩)
      (fun f =>
        (f.name, f.project, f.variations, f.overrides, f.description, f.evaluation,
          f.defaultVariation, f.tags, ()))

/-- The properties of its resource, in increasing order of their names. -/
def properties (f : Feature) : Json :=
  .object (Json.present
    [("DefaultVariation", f.defaultVariation.map .string),
     ("Description", f.description.map .string),
     ("EntityOverrides", nonEmptyProperty Override.properties f.overrides),
     ("EvaluationStrategy", f.evaluation.map fun e => .string e.label),
     ("Name", some (.string f.name)),
     ("Project", some f.project.json),
     ("Tags", f.tags.property),
     ("Variations", some (.array (f.variations.map Variation.properties)))])

/-- The first variation with a name; one without a name has the empty one. -/
def variation? (variations : List Variation) (name : String) : Option Variation :=
  variations.find? fun v => v.name == name

end Feature
end FlagStack
