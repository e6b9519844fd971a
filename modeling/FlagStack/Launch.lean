import FlagStack.Calendar.Timestamp
import FlagStack.Feature

/-!
# Launches

A launch serves variations to groups and moves traffic between the groups in
steps, each from its start time on.  Weights are in thousandths of a percent.
-/

namespace FlagStack

/-- A timestamp as a config file has it. -/
def Instant.shape : Shape Instant :=
  .text "an RFC 3339 formatted date and time string" (some "date-time")
    (fun s => (Timestamp.parse s).mapError Timestamp.Fault.message)
    (fun t => .string t.stamp)

/-- A variation that is served to a part of the traffic. -/
structure Group where
  feature : String
  name : String
  variation : String
  description : Option String
deriving DecidableEq

namespace Group

def shape : Shape Group :=
  .named "LaunchGroup"
    (some "A feature variation served to one slice of launch traffic.") <|
    .record "LaunchGroup"
      (.cons (.required "feature") featureReference <|
       .cons (.required "groupName") .string <|
       .cons (.required "variation") variationReference <|
       .cons (.optional "description") (.option .string) <|
       .nil)
      (fun (feature, name, variation, description, ()) =>
        ⟨feature, name, variation, description⟩)
      (fun g => (g.feature, g.name, g.variation, g.description, ()))

def properties (g : Group) : Json :=
  .object (Json.present
    [("Description", g.description.map .string),
     ("Feature", some (.string g.feature)),
     ("GroupName", some (.string g.name)),
     ("Variation", some (.string g.variation))])

end Group

/-- The share of traffic of one group. -/
structure GroupWeight where
  group : String
  weight : UInt32
deriving DecidableEq

namespace GroupWeight

def shape : Shape GroupWeight :=
  .named "GroupToWeight" none <|
    .record "GroupToWeight"
      (.cons (.required "groupName") .string <|
       .cons ((Field.required "splitWeight").described "Thousandths of a percent.")
         .count <|
       .nil)
      (fun (group, weight, ()) => ⟨group, weight⟩)
      (fun w => (w.group, w.weight, ()))

def properties (w : GroupWeight) : Json :=
  .object [("GroupName", .string w.group), ("SplitWeight", .integer w.weight.toNat)]

end GroupWeight

/-- A split of traffic, in force from its start on. -/
structure LaunchStep where
  weights : List GroupWeight
  start : Instant
deriving DecidableEq

namespace LaunchStep

def shape : Shape LaunchStep :=
  .named "StepConfig"
    (some ("One scheduled traffic split, effective from `start_time`.\n\n" ++
      "Group names, ordering and weight totals are checked by Evidently at\n" ++
      "deploy time, not here.")) <|
    .record "StepConfig"
      (.cons (.required "groupWeights") (.list GroupWeight.shape) <|
       .cons (.required "startTime") Instant.shape <|
       .nil)
      (fun (weights, start, ()) => ⟨weights, start⟩)
      (fun s => (s.weights, s.start, ()))

def properties (s : LaunchStep) : Json :=
  .object
    [("GroupWeights", .array (s.weights.map GroupWeight.properties)),
     ("StartTime", .string s.start.stamp)]

end LaunchStep

structure Launch where
  name : String
  project : Token
  groups : List Group
  steps : List LaunchStep
  description : Option String
  salt : Option String
  tags : Tags
deriving DecidableEq

namespace Launch

def shape : Shape Launch :=
  .named "LaunchProps"
    (some ("Props for an Evidently launch.\n\n" ++
      "A launch rolls feature variations out to launch groups and moves traffic\n" ++
      "between them on a schedule. At most five groups are allowed.")) <|
    .record "LaunchProps"
      (.cons (.required "name") .string <|
       .cons (.required "project") projectReference <|
       .cons (.defaulted "groups" []) (.list Group.shape) <|
       .cons
         ((Field.defaulted "scheduledSplitsConfig" []).described
           "Steps in the order they should be applied.")
         (.list LaunchStep.shape) <|
       .cons ((Field.optional "description").described "Rendered as `\"\"` when absent.")
         (.option .string) <|
       .cons (.optional "randomizationSalt") (.option .string) <|
       .cons Tags.field .textTable <|
       .nil)
      (fun (name, project, groups, steps, description, salt, tags, ()) =>
        ⟨name, project, groups, steps, description, salt, tags⟩)
      (fun l =>
        (l.name, l.project, l.groups, l.steps, l.description, l.salt, l.tags, ()))

/-- The properties of its resource, in increasing order of their names.  Launches
always have a description. -/
def properties (l : Launch) : Json :=
  .object (Json.present
    [("Description", some (.string (l.description.getD ""))),
     ("Groups", some (.array (l.groups.map Group.properties))),
     ("Name", some (.string l.name)),
     ("Project", some l.project.json),
     ("RandomizationSalt", l.salt.map .string),
     ("ScheduledSplitsConfig", some (.array (l.steps.map LaunchStep.properties))),
     ("Tags", l.tags.property)])

end Launch
end FlagStack
