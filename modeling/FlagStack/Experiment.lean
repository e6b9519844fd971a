import FlagStack.Feature

/-!
# Experiments

An experiment compares treatments, each of them a variation of a feature, by
the metrics that are its goals.  Traffic is split between the treatments by
weights, in thousandths of a percent.
-/

namespace FlagStack

/-- The direction in which a metric gets better. -/
inductive Direction where
  | increase
  | decrease
deriving DecidableEq

namespace Direction

def label : Direction → String
  | .increase => "INCREASE"
  | .decrease => "DECREASE"

def shape : Shape Direction :=
  .named "DesiredChange" none <|
    .choice ([increase, decrease].map fun d => (d.label, d)) label

end Direction

structure Goal where
  change : Direction
  entityKey : String
  eventPattern : String
  metric : String
  valueKey : String
  unitLabel : Option String
deriving DecidableEq

namespace Goal

def shape : Shape Goal :=
  .named "MetricGoal"
    (some "A metric the experiment tracks and the direction that counts as better.") <|
    .record "MetricGoal"
      (.cons (.required "desiredChange") Direction.shape <|
       .cons
         ((Field.required "entityIdKey").described
           "JSON path to the entity id in the event, e.g. `$.details.userId`.")
         .string <|
       .cons
         ((Field.required "eventPattern").described
           "EventBridge pattern selecting the events that feed this metric.")
         .string <|
       .cons (.required "metricName") .string <|
       .cons
         ((Field.required "valueKey").described
           "JSON path to the metric value in the event.")
         .string <|
       .cons (.optional "unitLabel") (.option .string) <|
       .nil)
      (fun (change, entityKey, eventPattern, metric, valueKey, unitLabel, ()) =>
        ⟨change, entityKey, eventPattern, metric, valueKey, unitLabel⟩)
      (fun g =>
        (g.change, g.entityKey, g.eventPattern, g.metric, g.valueKey, g.unitLabel, ()))

def properties (g : Goal) : Json :=
  .object (Json.present
    [("DesiredChange", some (.string g.change.label)),
     ("EntityIdKey", some (.string g.entityKey)),
     ("EventPattern", some (.string g.eventPattern)),
     ("MetricName", some (.string g.metric)),
     ("UnitLabel", g.unitLabel.map .string),
     ("ValueKey", some (.string g.valueKey))])

end Goal

/-- The share of traffic of one treatment. -/
structure TreatmentWeight where
  treatment : String
  weight : UInt32
deriving DecidableEq

namespace TreatmentWeight

def shape : Shape TreatmentWeight :=
  .named "TreatmentToWeight"
    (some ("Share of experiment traffic for one treatment, in thousandths of a percent\n" ++
      "(`0..=100000`).")) <|
    .record "TreatmentToWeight"
      (.cons ((Field.required "treatment").alsoNamed "treatmentName") .string <|
       .cons (.required "splitWeight") .count <|
       .nil)
      (fun (treatment, weight, ()) => ⟨treatment, weight⟩)
      (fun w => (w.treatment, w.weight, ()))

def properties (w : TreatmentWeight) : Json :=
  .object
    [("SplitWeight", .integer w.weight.toNat), ("Treatment", .string w.treatment)]

end TreatmentWeight

/-- How traffic is split between treatments. -/
structure Split where
  control : Option String
  weights : List TreatmentWeight
deriving DecidableEq

namespace Split

def shape : Shape Split :=
  .named "OnlineAbConfig"
    (some ("Traffic split between treatments.\n\n" ++
      "Weights are passed through as given. Nothing checks that they sum to\n" ++
      "100000 or that the named treatments exist.")) <|
    .record "OnlineAbConfig"
      (.cons (.optional "controlTreatmentName") (.option .string) <|
       .cons (.defaulted "treatmentWeights" []) (.list TreatmentWeight.shape) <|
       .nil)
      (fun (control, weights, ()) => ⟨control, weights⟩)
      (fun s => (s.control, s.weights, ()))

def properties (s : Split) : Json :=
  .object (Json.present
    [("ControlTreatmentName", s.control.map .string),
     ("TreatmentWeights", nonEmptyProperty TreatmentWeight.properties s.weights)])

end Split

/-- One arm of an experiment. -/
structure Treatment where
  feature : String
  name : String
  variation : String
  description : Option String
deriving DecidableEq

namespace Treatment

def shape : Shape Treatment :=
  .named "TreatmentConfig"
    (some ("One arm of an experiment: a feature variation under a treatment name.\n\n" ++
      "Feature and variation may be given as handles or as bare names; both\n" ++
      "render identically.")) <|
    .record "TreatmentConfig"
      (.cons (.required "feature") featureReference <|
       .cons (.required "treatmentName") .string <|
       .cons (.required "variation") variationReference <|
       .cons (.optional "description") (.option .string) <|
       .nil)
      (fun (feature, name, variation, description, ()) =>
        ⟨feature, name, variation, description⟩)
      (fun t => (t.feature, t.name, t.variation, t.description, ()))

def properties (t : Treatment) : Json :=
  .object (Json.present
    [("Description", t.description.map .string),
     ("Feature", some (.string t.feature)),
     ("TreatmentName", some (.string t.name)),
     ("Variation", some (.string t.variation))])

end Treatment

structure Experiment where
  name : String
  project : Token
  goals : List Goal
  split : Split
  treatments : List Treatment
  description : Option String
  salt : Option String
  samplingRate : Option UInt32
  tags : Tags
deriving DecidableEq

namespace Experiment

def shape : Shape Experiment :=
  .named "ExperimentProps"
    (some ("Props for an Evidently experiment.\n\n" ++
      "An experiment compares treatments (a feature variation each) against up to\n" ++
      "three metric goals. Traffic is split by [`OnlineAbConfig`].")) <|
    .record "ExperimentProps"
      (.cons (.required "name") .string <|
       .cons (.required "project") projectReference <|
       .cons (.required "metricGoals") (.list Goal.shape) <|
       .cons (.required "onlineAbConfig") Split.shape <|
       .cons (.required "treatments") (.list Treatment.shape) <|
       .cons (.optional "description") (.option .string) <|
       .cons (.optional "randomizationSalt") (.option .string) <|
       .cons
         ((Field.optional "samplingRate").described
           "Portion of audience traffic sampled, in thousandths of a percent.")
         (.option .count) <|
       .cons Tags.field .textTable <|
       .nil)
      (fun (name, project, goals, split, treatments, description, salt, samplingRate,
          tags, ()) =>
        ⟨name, project, goals, split, treatments, description, salt, samplingRate, tags⟩)
      (fun e =>
        (e.name, e.project, e.goals, e.split, e.treatments, e.description, e.salt,
          e.samplingRate, e.tags, ()))

/-- The properties of its resource, in increasing order of their names. -/
def properties (e : Experiment) : Json :=
  .object (Json.present
    [("Description", e.description.map .string),
     ("MetricGoals", some (.array (e.goals.map Goal.properties))),
     ("Name", some (.string e.name)),
     ("OnlineAbConfig", some e.split.properties),
     ("Project", some e.project.json),
     ("RandomizationSalt", e.salt.map .string),
     ("SamplingRate", e.samplingRate.map fun n => .integer n.toNat),
     ("Tags", e.tags.property),
     ("Treatments", some (.array (e.treatments.map Treatment.properties)))])

end Experiment
end FlagStack
