import FlagStack.Proofs.Records
import FlagStack.Proofs.Tables
import FlagStack.Resource

/-!
# Properties of each kind

Of each kind of definition, and of everything that is a part of one, it is said which
properties it has, under which keys, and when a property is absent.  Lists keep their
order, and tags stand in increasing key order.

This is what rendering shows.  In return all of a definition can be read off its
properties, but for one thing: a launch without a description shows the empty one.
Start times are shown by their stamps, so that they are told apart as far as their
stamps are.

**Results.**
* `shown_properties` for each kind: rendered properties are those that are said.
* `leftUnique_shown` for each kind but launches: one value shows one definition only.
* `Launch.described_eq_of_shown`: the same of launches, up to an absent description.
-/

namespace FlagStack

open Json

section Tokens

/-- A text, or the attribute of a resource. -/
def Token.Shown : Token → Json → Prop
  | .literal s => IsText s
  | .attribute logicalId name =>
      IsRecord [.always "Fn::GetAtt" (IsArrayOf IsText [logicalId, name])]

theorem Token.shown_json
    (t : Token) :
    t.Shown t.json := by
  cases t with
  | literal s => rfl
  | «attribute» logicalId name =>
      have hpair : IsArrayOf IsText [logicalId, name] (.array [.string logicalId, .string name]) :=
        isArrayOf_map fun _ _ => rfl
      exact isRecord_object (by simp) (.cons (fits_always _ hpair) .nil)

theorem Token.leftUnique_shown :
    Relator.LeftUnique Token.Shown := by
  intro t t' v h h'
  cases t with
  | literal s =>
      cases t' with
      | literal s' => exact congrArg _ (leftUnique_isText h h')
      | «attribute» => cases h; cases h'
  | «attribute» logicalId name =>
      cases t' with
      | literal s' => cases h'; cases h
      | «attribute» logicalId' name' =>
          have hrows := h.agrees h' rfl (by simp)
          obtain ⟨hpair, -⟩ := List.forall₂_cons.1 hrows
          cases hpair.eq_of_always (leftUnique_isArrayOf leftUnique_isText)
          rfl

end Tokens

namespace Tags

/-- A tag by its key and its value. -/
def TagShown (tag : String × String) : Json → Prop :=
  IsRecord [.always "Key" (IsText tag.1), .always "Value" (IsText tag.2)]

/-- The tags in increasing key order. -/
def Shown (tags : Tags) (v : Json) : Prop :=
  ∃ l : List (String × String), l.Pairwise (·.1 < ·.1) ∧
    (∀ key value, (key, value) ∈ l ↔ tags.get? key = some value) ∧ IsArrayOf TagShown l v

/-- Tags are a property if there are any. -/
def row (tags : Tags) : Property :=
  ⟨"Tags", if tags.isEmpty then none else some tags.Shown⟩

@[simp] theorem key_row
    (tags : Tags) :
    tags.row.key = "Tags" := by
  rfl

theorem fits_row
    (tags : Tags) :
    Fits tags.row ("Tags", tags.property) := by
  rw [row, property]
  split
  · exact .absent _
  · refine .shown _ ⟨tags.entries, tags.increasing, fun _ _ => Table.get?_eq_some_iff.symm, ?_⟩
    refine isArrayOf_map fun tag _ => ?_
    exact isRecord_object (by simp) (.cons (fits_always _ rfl) (.cons (fits_always _ rfl) .nil))

theorem leftUnique_tagShown :
    Relator.LeftUnique TagShown := by
  rintro ⟨key, value⟩ ⟨key', value'⟩ v h h'
  have hrows := h.agrees h' rfl (by simp)
  simp only [List.forall₂_cons] at hrows
  obtain ⟨hkey, hvalue, -⟩ := hrows
  rw [hkey.eq_of_always leftUnique_isText, hvalue.eq_of_always leftUnique_isText]

theorem leftUnique_shown :
    Relator.LeftUnique Shown := by
  rintro tags tags' v ⟨l, -, hl, h⟩ ⟨l', -, hl', h'⟩
  cases leftUnique_isArrayOf leftUnique_tagShown h h'
  refine Table.eq_of_get?_eq fun key => Option.ext fun value => ?_
  rw [← hl, ← hl']

theorem eq_of_agrees
    {tags tags' : Tags} (h : Agrees tags.row tags'.row) :
    tags = tags' := by
  simp only [row] at h
  split at h
  · next hempty =>
      split at h
      · next hempty' =>
          refine Table.eq_of_get?_eq fun key => ?_
          rw [Table.get?, Table.get?, List.isEmpty_iff.1 hempty, List.isEmpty_iff.1 hempty']
      · cases h
  · split at h
    · cases h
    · exact Agrees.eq_of_always leftUnique_shown h

end Tags

section Projects

/-- A bucket with the prefix that may be given. -/
def Bucket.Shown (b : Bucket) : Json → Prop :=
  IsRecord
    [.always "BucketName" (IsText b.name),
     .given "Prefix" IsText b.keyPrefix]

theorem Bucket.shown_properties
    (b : Bucket) :
    b.Shown b.properties := by
  refine isRecord_present (by simp) ?_
  exact .cons (fits_always _ rfl) (.cons (fits_given _ isText_string _) .nil)

theorem Bucket.leftUnique_shown :
    Relator.LeftUnique Bucket.Shown := by
  rintro ⟨name, keyPrefix⟩ ⟨name', keyPrefix'⟩ v h h'
  have hrows := h.agrees h' rfl (by simp)
  simp only [List.forall₂_cons] at hrows
  obtain ⟨hname, hstart, -⟩ := hrows
  rw [hname.eq_of_always leftUnique_isText, hstart.eq_of_given leftUnique_isText]

/-- A log group or a bucket, and never both. -/
def Delivery.Shown : Delivery → Json → Prop
  | .logGroup name => IsRecord [.always "LogGroup" (IsText name), .absent "S3"]
  | .bucket b => IsRecord [.absent "LogGroup", .always "S3" b.Shown]

theorem Delivery.shown_properties
    (d : Delivery) :
    d.Shown d.properties := by
  cases d with
  | logGroup name =>
      have hfits : List.Forall₂ Fits [.always "LogGroup" (IsText name), .absent "S3"]
          [("LogGroup", some (.string name)), ("S3", none)] :=
        .cons (fits_always _ rfl) (.cons (.absent _) .nil)
      exact isRecord_present (by simp) hfits
  | bucket b =>
      have hfits : List.Forall₂ Fits [.absent "LogGroup", .always "S3" b.Shown]
          [("LogGroup", none), ("S3", some b.properties)] :=
        .cons (.absent _) (.cons (fits_always _ b.shown_properties) .nil)
      exact isRecord_present (by simp) hfits

theorem Delivery.leftUnique_shown :
    Relator.LeftUnique Delivery.Shown := by
  intro d d' v h h'
  cases d with
  | logGroup name =>
      cases d' with
      | logGroup name' =>
          have hrows := h.agrees h' rfl (by simp)
          obtain ⟨hname, -⟩ := List.forall₂_cons.1 hrows
          rw [hname.eq_of_always leftUnique_isText]
      | bucket b' =>
          have hrows := h.agrees h' rfl (by simp)
          obtain ⟨hname, -⟩ := List.forall₂_cons.1 hrows
          cases hname
  | bucket b =>
      cases d' with
      | logGroup name' =>
          have hrows := h.agrees h' rfl (by simp)
          obtain ⟨hname, -⟩ := List.forall₂_cons.1 hrows
          cases hname
      | bucket b' =>
          have hrows := h.agrees h' rfl (by simp)
          simp only [List.forall₂_cons] at hrows
          obtain ⟨-, hbucket, -⟩ := hrows
          rw [hbucket.eq_of_always Bucket.leftUnique_shown]

def Project.Shown (p : Project) : Json → Prop :=
  IsRecord
    [.given "DataDelivery" Delivery.Shown p.delivery,
     .given "Description" IsText p.description,
     .always "Name" (IsText p.name),
     p.tags.row]

theorem Project.shown_properties
    (p : Project) :
    p.Shown p.properties := by
  refine isRecord_present (by simp) ?_
  exact .cons (fits_given _ Delivery.shown_properties _) <|
    .cons (fits_given _ isText_string _) <|
    .cons (fits_always _ rfl) <|
    .cons p.tags.fits_row .nil

theorem Project.leftUnique_shown :
    Relator.LeftUnique Project.Shown := by
  rintro ⟨name, description, delivery, tags⟩ ⟨name', description', delivery', tags'⟩ v h h'
  have hrows := h.agrees h' rfl (by simp)
  simp only [List.forall₂_cons] at hrows
  obtain ⟨hdelivery, hdescription, hname, htags, -⟩ := hrows
  rw [hdelivery.eq_of_given Delivery.leftUnique_shown,
    hdescription.eq_of_given leftUnique_isText, hname.eq_of_always leftUnique_isText,
    Tags.eq_of_agrees htags]

end Projects

section Features

/-- A value as the JSON value of its type. -/
def Value.Shown : Value → Json → Prop
  | .boolean b, v => v = .bool b
  | .double x, v => v = .float x
  | .long n, v => v = .integer n.toInt
  | .string s, v => v = .string s

/-- Where the values of a type stand. -/
def ValueType.key : ValueType → String
  | .boolean => "BooleanValue"
  | .double => "DoubleValue"
  | .long => "LongValue"
  | .string => "StringValue"

/-- A value is a property under the key of its type only. -/
def Value.row (value : Value) (t : ValueType) : Property :=
  ⟨t.key, if value.valueType = t then some value.Shown else none⟩

@[simp] theorem Value.key_row
    (value : Value) (t : ValueType) :
    (value.row t).key = t.key := by
  rfl

theorem Value.shown_json
    {value : Value} (h : value.isNonFinite = false) :
    value.Shown value.json := by
  cases value with
  | boolean b => rfl
  | double x =>
      have hfinite : x.isFinite = true := by simpa [isNonFinite] using h
      exact if_pos hfinite
  | long n => rfl
  | string s => rfl

theorem Value.leftUnique_shown :
    Relator.LeftUnique Value.Shown := by
  intro a b v ha hb
  cases a <;> cases b <;> simp_all [Value.Shown, Int64.toInt_inj]

theorem Value.fits_row
    {value : Value} (h : value.isNonFinite = false) (t : ValueType) :
    Fits (value.row t) (t.key, if value.valueType = t then some value.json else none) := by
  rw [row]
  split
  · exact .shown _ (shown_json h)
  · exact .absent _

theorem Value.eq_of_agrees
    {a b : Value} (h : Agrees (a.row a.valueType) (b.row a.valueType)) :
    a = b := by
  simp only [Value.row, if_pos] at h
  split at h
  · exact Agrees.eq_of_always Value.leftUnique_shown h
  · cases h

/-- A value under the key of its type, with the name that may be given. -/
def Variation.Shown (v : Variation) : Json → Prop :=
  IsRecord
    [v.value.row .boolean, v.value.row .double, v.value.row .long, v.value.row .string,
     .given "VariationName" IsText v.label]

/-- The properties of a variation with all keys that a value may stand under. -/
theorem Variation.properties_eq
    (v : Variation) :
    v.properties = .object (present (
      [ValueType.boolean, .double, .long, .string].map (fun t =>
        (t.key, if v.value.valueType = t then some v.value.json else none)) ++
      [("VariationName", v.label.map .string)])) := by
  obtain ⟨label, value⟩ := v
  cases value <;> rfl

theorem Variation.shown_properties
    {v : Variation} (h : v.value.isNonFinite = false) :
    v.Shown v.properties := by
  rw [properties_eq]
  refine isRecord_present (by simp [ValueType.key]) ?_
  exact .cons (v.value.fits_row h .boolean) <|
    .cons (v.value.fits_row h .double) <|
    .cons (v.value.fits_row h .long) <|
    .cons (v.value.fits_row h .string) <|
    .cons (fits_given _ isText_string _) .nil

theorem Variation.leftUnique_shown :
    Relator.LeftUnique Variation.Shown := by
  rintro ⟨label, value⟩ ⟨label', value'⟩ v h h'
  have hrows := h.agrees h' rfl (by simp [ValueType.key])
  simp only [List.forall₂_cons] at hrows
  obtain ⟨hboolean, hdouble, hlong, hstring, hlabel, -⟩ := hrows
  have hvalue : value = value' := by
    refine Value.eq_of_agrees ?_
    cases value.valueType with
    | boolean => exact hboolean
    | double => exact hdouble
    | long => exact hlong
    | string => exact hstring
  rw [hvalue, hlabel.eq_of_given leftUnique_isText]

def Override.Shown (o : Override) : Json → Prop :=
  IsRecord
    [.always "EntityId" (IsText o.entity),
     .always "Variation" (IsText o.variation)]

theorem Override.shown_properties
    (o : Override) :
    o.Shown o.properties :=
  isRecord_object (by simp) (.cons (fits_always _ rfl) (.cons (fits_always _ rfl) .nil))

theorem Override.leftUnique_shown :
    Relator.LeftUnique Override.Shown := by
  rintro ⟨entity, variation⟩ ⟨entity', variation'⟩ v h h'
  have hrows := h.agrees h' rfl (by simp)
  simp only [List.forall₂_cons] at hrows
  obtain ⟨hentity, hvariation, -⟩ := hrows
  rw [hentity.eq_of_always leftUnique_isText, hvariation.eq_of_always leftUnique_isText]

/-- A strategy by its label. -/
def Evaluation.Shown (e : Evaluation) : Json → Prop :=
  IsText e.label

theorem Evaluation.shown_label
    (e : Evaluation) :
    e.Shown (.string e.label) := by
  rfl

theorem Evaluation.leftUnique_shown :
    Relator.LeftUnique Evaluation.Shown := by
  intro e e' v h h'
  have hlabel : e.label = e'.label := leftUnique_isText h h'
  revert hlabel
  cases e <;> cases e' <;> decide

def Feature.Shown (f : Feature) : Json → Prop :=
  IsRecord
    [.given "DefaultVariation" IsText f.defaultVariation,
     .given "Description" IsText f.description,
     .unlessEmpty "EntityOverrides" Override.Shown f.overrides,
     .given "EvaluationStrategy" Evaluation.Shown f.evaluation,
     .always "Name" (IsText f.name),
     .always "Project" f.project.Shown,
     f.tags.row,
     .always "Variations" (IsArrayOf Variation.Shown f.variations)]

theorem Feature.shown_properties
    {f : Feature} (h : ∀ v ∈ f.variations, v.value.isNonFinite = false) :
    f.Shown f.properties := by
  have hvariations : IsArrayOf Variation.Shown f.variations
      (.array (f.variations.map Variation.properties)) :=
    isArrayOf_map fun v hv => Variation.shown_properties (h v hv)
  refine isRecord_present (by simp) ?_
  exact .cons (fits_given _ isText_string _) <|
    .cons (fits_given _ isText_string _) <|
    .cons (fits_unlessEmpty _ Override.shown_properties _) <|
    .cons (fits_given _ Evaluation.shown_label _) <|
    .cons (fits_always _ rfl) <|
    .cons (fits_always _ f.project.shown_json) <|
    .cons f.tags.fits_row <|
    .cons (fits_always _ hvariations) .nil

theorem Feature.leftUnique_shown :
    Relator.LeftUnique Feature.Shown := by
  intro f f' v h h'
  have hrows := h.agrees h' rfl (by simp)
  simp only [List.forall₂_cons] at hrows
  obtain ⟨hdefault, hdescription, hoverrides, hevaluation, hname, hproject, htags,
    hvariations, -⟩ := hrows
  have hlists := leftUnique_isArrayOf Variation.leftUnique_shown
  cases f
  cases f'
  simp only [Feature.mk.injEq]
  exact ⟨hname.eq_of_always leftUnique_isText, hproject.eq_of_always Token.leftUnique_shown,
    hvariations.eq_of_always hlists, hoverrides.eq_of_unlessEmpty Override.leftUnique_shown,
    hdescription.eq_of_given leftUnique_isText,
    hevaluation.eq_of_given Evaluation.leftUnique_shown,
    hdefault.eq_of_given leftUnique_isText, Tags.eq_of_agrees htags⟩

end Features

section Served

/-- A variation of a feature that is served under a name, where the name has a key of
its own. -/
def servedRows (key feature name variation : String) (description : Option String) :
    List Property :=
  [.given "Description" IsText description,
   .always "Feature" (IsText feature),
   .always key (IsText name),
   .always "Variation" (IsText variation)]

theorem fits_servedRows
    (key feature name variation : String) (description : Option String) :
    List.Forall₂ Fits (servedRows key feature name variation description)
      [("Description", description.map .string),
       ("Feature", some (.string feature)),
       (key, some (.string name)),
       ("Variation", some (.string variation))] :=
  .cons (fits_given _ isText_string _) <|
    .cons (fits_always _ rfl) <|
    .cons (fits_always _ rfl) <|
    .cons (fits_always _ rfl) .nil

theorem eq_of_agrees_servedRows
    {key feature feature' name name' variation variation' : String}
    {description description' : Option String}
    (h : List.Forall₂ Agrees (servedRows key feature name variation description)
      (servedRows key feature' name' variation' description')) :
    feature = feature' ∧ name = name' ∧ variation = variation' ∧ description = description' := by
  simp only [servedRows, List.forall₂_cons] at h
  obtain ⟨hdescription, hfeature, hname, hvariation, -⟩ := h
  exact ⟨hfeature.eq_of_always leftUnique_isText, hname.eq_of_always leftUnique_isText,
    hvariation.eq_of_always leftUnique_isText, hdescription.eq_of_given leftUnique_isText⟩

end Served

section Experiments

/-- A direction by its label. -/
def Direction.Shown (d : Direction) : Json → Prop :=
  IsText d.label

theorem Direction.leftUnique_shown :
    Relator.LeftUnique Direction.Shown := by
  intro d d' v h h'
  have hlabel : d.label = d'.label := leftUnique_isText h h'
  revert hlabel
  cases d <;> cases d' <;> decide

def Goal.Shown (g : Goal) : Json → Prop :=
  IsRecord
    [.always "DesiredChange" g.change.Shown,
     .always "EntityIdKey" (IsText g.entityKey),
     .always "EventPattern" (IsText g.eventPattern),
     .always "MetricName" (IsText g.metric),
     .given "UnitLabel" IsText g.unitLabel,
     .always "ValueKey" (IsText g.valueKey)]

theorem Goal.shown_properties
    (g : Goal) :
    g.Shown g.properties := by
  refine isRecord_present (by simp) ?_
  exact .cons (fits_always _ rfl) <|
    .cons (fits_always _ rfl) <|
    .cons (fits_always _ rfl) <|
    .cons (fits_always _ rfl) <|
    .cons (fits_given _ isText_string _) <|
    .cons (fits_always _ rfl) .nil

theorem Goal.leftUnique_shown :
    Relator.LeftUnique Goal.Shown := by
  intro g g' v h h'
  have hrows := h.agrees h' rfl (by simp)
  simp only [List.forall₂_cons] at hrows
  obtain ⟨hchange, hentity, hpattern, hmetric, hunit, hvalue, -⟩ := hrows
  cases g
  cases g'
  simp only [Goal.mk.injEq]
  exact ⟨hchange.eq_of_always Direction.leftUnique_shown,
    hentity.eq_of_always leftUnique_isText, hpattern.eq_of_always leftUnique_isText,
    hmetric.eq_of_always leftUnique_isText, hvalue.eq_of_always leftUnique_isText,
    hunit.eq_of_given leftUnique_isText⟩

def TreatmentWeight.Shown (w : TreatmentWeight) : Json → Prop :=
  IsRecord
    [.always "SplitWeight" (IsCount w.weight),
     .always "Treatment" (IsText w.treatment)]

theorem TreatmentWeight.shown_properties
    (w : TreatmentWeight) :
    w.Shown w.properties :=
  isRecord_object (by simp) (.cons (fits_always _ rfl) (.cons (fits_always _ rfl) .nil))

theorem TreatmentWeight.leftUnique_shown :
    Relator.LeftUnique TreatmentWeight.Shown := by
  rintro ⟨treatment, weight⟩ ⟨treatment', weight'⟩ v h h'
  have hrows := h.agrees h' rfl (by simp)
  simp only [List.forall₂_cons] at hrows
  obtain ⟨hweight, htreatment, -⟩ := hrows
  rw [hweight.eq_of_always leftUnique_isCount, htreatment.eq_of_always leftUnique_isText]

def Split.Shown (s : Split) : Json → Prop :=
  IsRecord
    [.given "ControlTreatmentName" IsText s.control,
     .unlessEmpty "TreatmentWeights" TreatmentWeight.Shown s.weights]

theorem Split.shown_properties
    (s : Split) :
    s.Shown s.properties := by
  refine isRecord_present (by simp) ?_
  exact .cons (fits_given _ isText_string _) <|
    .cons (fits_unlessEmpty _ TreatmentWeight.shown_properties _) .nil

theorem Split.leftUnique_shown :
    Relator.LeftUnique Split.Shown := by
  rintro ⟨control, weights⟩ ⟨control', weights'⟩ v h h'
  have hrows := h.agrees h' rfl (by simp)
  simp only [List.forall₂_cons] at hrows
  obtain ⟨hcontrol, hweights, -⟩ := hrows
  rw [hcontrol.eq_of_given leftUnique_isText,
    hweights.eq_of_unlessEmpty TreatmentWeight.leftUnique_shown]

def Treatment.Shown (t : Treatment) : Json → Prop :=
  IsRecord (servedRows "TreatmentName" t.feature t.name t.variation t.description)

theorem Treatment.shown_properties
    (t : Treatment) :
    t.Shown t.properties :=
  isRecord_present (by simp) (fits_servedRows _ _ _ _ _)

theorem Treatment.leftUnique_shown :
    Relator.LeftUnique Treatment.Shown := by
  rintro ⟨feature, name, variation, description⟩ ⟨feature', name', variation', description'⟩ v h h'
  obtain ⟨rfl, rfl, rfl, rfl⟩ := eq_of_agrees_servedRows (h.agrees h' rfl (by simp [servedRows]))
  rfl

def Experiment.Shown (e : Experiment) : Json → Prop :=
  IsRecord
    [.given "Description" IsText e.description,
     .always "MetricGoals" (IsArrayOf Goal.Shown e.goals),
     .always "Name" (IsText e.name),
     .always "OnlineAbConfig" e.split.Shown,
     .always "Project" e.project.Shown,
     .given "RandomizationSalt" IsText e.salt,
     .given "SamplingRate" IsCount e.samplingRate,
     e.tags.row,
     .always "Treatments" (IsArrayOf Treatment.Shown e.treatments)]

theorem Experiment.shown_properties
    (e : Experiment) :
    e.Shown e.properties := by
  have hgoals := isArrayOf_map fun g (_ : g ∈ e.goals) => g.shown_properties
  have htreatments := isArrayOf_map fun t (_ : t ∈ e.treatments) => t.shown_properties
  refine isRecord_present (by simp) ?_
  exact .cons (fits_given _ isText_string _) <|
    .cons (fits_always _ hgoals) <|
    .cons (fits_always _ rfl) <|
    .cons (fits_always _ e.split.shown_properties) <|
    .cons (fits_always _ e.project.shown_json) <|
    .cons (fits_given _ isText_string _) <|
    .cons (fits_given _ isCount_integer _) <|
    .cons e.tags.fits_row <|
    .cons (fits_always _ htreatments) .nil

theorem Experiment.leftUnique_shown :
    Relator.LeftUnique Experiment.Shown := by
  intro e e' v h h'
  have hrows := h.agrees h' rfl (by simp)
  simp only [List.forall₂_cons] at hrows
  obtain ⟨hdescription, hgoals, hname, hsplit, hproject, hsalt, hrate, htags, htreatments, -⟩ :=
    hrows
  have hgoalLists := leftUnique_isArrayOf Goal.leftUnique_shown
  have htreatmentLists := leftUnique_isArrayOf Treatment.leftUnique_shown
  cases e
  cases e'
  simp only [Experiment.mk.injEq]
  exact ⟨hname.eq_of_always leftUnique_isText, hproject.eq_of_always Token.leftUnique_shown,
    hgoals.eq_of_always hgoalLists, hsplit.eq_of_always Split.leftUnique_shown,
    htreatments.eq_of_always htreatmentLists, hdescription.eq_of_given leftUnique_isText,
    hsalt.eq_of_given leftUnique_isText, hrate.eq_of_given leftUnique_isCount,
    Tags.eq_of_agrees htags⟩

end Experiments

section Launches

def Group.Shown (g : Group) : Json → Prop :=
  IsRecord (servedRows "GroupName" g.feature g.name g.variation g.description)

theorem Group.shown_properties
    (g : Group) :
    g.Shown g.properties :=
  isRecord_present (by simp) (fits_servedRows _ _ _ _ _)

theorem Group.leftUnique_shown :
    Relator.LeftUnique Group.Shown := by
  rintro ⟨feature, name, variation, description⟩ ⟨feature', name', variation', description'⟩ v h h'
  obtain ⟨rfl, rfl, rfl, rfl⟩ := eq_of_agrees_servedRows (h.agrees h' rfl (by simp [servedRows]))
  rfl

def GroupWeight.Shown (w : GroupWeight) : Json → Prop :=
  IsRecord
    [.always "GroupName" (IsText w.group),
     .always "SplitWeight" (IsCount w.weight)]

theorem GroupWeight.shown_properties
    (w : GroupWeight) :
    w.Shown w.properties :=
  isRecord_object (by simp) (.cons (fits_always _ rfl) (.cons (fits_always _ rfl) .nil))

theorem GroupWeight.leftUnique_shown :
    Relator.LeftUnique GroupWeight.Shown := by
  rintro ⟨group, weight⟩ ⟨group', weight'⟩ v h h'
  have hrows := h.agrees h' rfl (by simp)
  simp only [List.forall₂_cons] at hrows
  obtain ⟨hgroup, hweight, -⟩ := hrows
  rw [hgroup.eq_of_always leftUnique_isText, hweight.eq_of_always leftUnique_isCount]

/-- A step with the stamp of its start. -/
def LaunchStep.Shown (s : LaunchStep) : Json → Prop :=
  IsRecord
    [.always "GroupWeights" (IsArrayOf GroupWeight.Shown s.weights),
     .always "StartTime" (IsText s.start.stamp)]

theorem LaunchStep.shown_properties
    (s : LaunchStep) :
    s.Shown s.properties := by
  have hweights := isArrayOf_map fun w (_ : w ∈ s.weights) => w.shown_properties
  exact isRecord_object (by simp) (.cons (fits_always _ hweights) (.cons (fits_always _ rfl) .nil))

/-- Steps are told apart as far as their starts are. -/
theorem LaunchStep.eq_of_shown
    {s s' : LaunchStep} {v : Json} (hstart : s.start.stamp = s'.start.stamp → s.start = s'.start)
    (h : s.Shown v) (h' : s'.Shown v) :
    s = s' := by
  have hrows := h.agrees h' rfl (by simp)
  simp only [List.forall₂_cons] at hrows
  obtain ⟨hweights, hstamp, -⟩ := hrows
  have hlists := leftUnique_isArrayOf GroupWeight.leftUnique_shown
  cases s
  cases s'
  simp only [LaunchStep.mk.injEq]
  exact ⟨hweights.eq_of_always hlists, hstart (hstamp.eq_of_always leftUnique_isText)⟩

/-- A launch, its description empty if it has none. -/
def Launch.Shown (l : Launch) : Json → Prop :=
  IsRecord
    [.always "Description" (IsText (l.description.getD "")),
     .always "Groups" (IsArrayOf Group.Shown l.groups),
     .always "Name" (IsText l.name),
     .always "Project" l.project.Shown,
     .given "RandomizationSalt" IsText l.salt,
     .always "ScheduledSplitsConfig" (IsArrayOf LaunchStep.Shown l.steps),
     l.tags.row]

/-- The launch with the description that it shows. -/
def Launch.described (l : Launch) : Launch :=
  { l with description := some (l.description.getD "") }

theorem Launch.shown_properties
    (l : Launch) :
    l.Shown l.properties := by
  have hgroups := isArrayOf_map fun g (_ : g ∈ l.groups) => g.shown_properties
  have hsteps := isArrayOf_map fun s (_ : s ∈ l.steps) => s.shown_properties
  refine isRecord_present (by simp) ?_
  exact .cons (fits_always _ rfl) <|
    .cons (fits_always _ hgroups) <|
    .cons (fits_always _ rfl) <|
    .cons (fits_always _ l.project.shown_json) <|
    .cons (fits_given _ isText_string _) <|
    .cons (fits_always _ hsteps) <|
    .cons l.tags.fits_row .nil

theorem Launch.described_eq_of_shown
    {l l' : Launch} {v : Json}
    (hstarts : ∀ s ∈ l.steps, ∀ s' ∈ l'.steps, s.start.stamp = s'.start.stamp → s.start = s'.start)
    (h : l.Shown v) (h' : l'.Shown v) :
    l.described = l'.described := by
  have hrows := h.agrees h' rfl (by simp)
  simp only [List.forall₂_cons] at hrows
  obtain ⟨hdescription, hgroups, hname, hproject, hsalt, hsteps, htags, -⟩ := hrows
  have hlists := leftUnique_isArrayOf Group.leftUnique_shown
  have hsame : l.steps = l'.steps := by
    obtain ⟨w, hw, hw'⟩ := hsteps.exists_of_always
    refine eq_of_isArrayOf ?_ hw hw'
    exact fun s hs s' hs' _ hu hu' => LaunchStep.eq_of_shown (hstarts s hs s' hs') hu hu'
  simp only [Launch.described, Launch.mk.injEq]
  exact ⟨hname.eq_of_always leftUnique_isText, hproject.eq_of_always Token.leftUnique_shown,
    hgroups.eq_of_always hlists, hsame,
    congrArg some (hdescription.eq_of_always leftUnique_isText),
    hsalt.eq_of_given leftUnique_isText, Tags.eq_of_agrees htags⟩

end Launches

end FlagStack
