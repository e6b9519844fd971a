import FlagStack.Config
import FlagStack.Proofs.PrintedTimestamps
import FlagStack.Proofs.ShapeRoundTrip

/-!
# Configs read back

A config that was read is written as a text that is read as the same config, and so is
a value of every type that a config is made of.  However a text spells its value, with
other names for fields, as arrays, without fields that may be left out, or with an
integer for a number, writing it once gives a text that is not changed by reading and
writing it again.

**Results.**
* `Shape.faithful_of_mem_components`: a shape that reads what it writes is made of shapes
  that do.
* `Config.faithful_shape`: the shape of configs is one.
* `Config.components_round_trip`: the round trip.
-/

namespace FlagStack

section Components

mutual

/-- The shapes that a shape is made of. -/
def Shape.components : {α : Type} → Shape α → List (Σ β : Type, Shape β)
  | _, .text .. => []
  | _, .count => []
  | _, .anything => []
  | _, .choice .. => []
  | _, .option shape => ⟨_, shape⟩ :: shape.components
  | _, .list shape => ⟨_, shape⟩ :: shape.components
  | _, .textTable => []
  | _, .either _ leftShape _ rightShape =>
      ⟨_, leftShape⟩ :: leftShape.components ++ ⟨_, rightShape⟩ :: rightShape.components
  | _, .record _ fields _ _ => fields.components
  | _, .checked shape _ _ => ⟨_, shape⟩ :: shape.components
  | _, .named _ _ shape => ⟨_, shape⟩ :: shape.components

/-- The shapes that the fields of a record are made of. -/
def Fields.components : {σ τ : Type} → Fields σ τ → List (Σ β : Type, Shape β)
  | _, _, .nil => []
  | _, _, .cons _ shape rest => ⟨_, shape⟩ :: shape.components ++ rest.components

end

variable {p : Σ β : Type, Shape β}

/-- What holds of a shape and of all that it is made of. -/
theorem Shape.faithful_of_mem_cons
    {α : Type} (shape : Shape α) (h : shape.Faithful)
    (hcomponents : p ∈ shape.components → p.2.Faithful ∧ p.2.depth ≤ shape.depth) {depth : Nat}
    (hdepth : shape.depth ≤ depth) (hp : p ∈ ⟨α, shape⟩ :: shape.components) :
    p.2.Faithful ∧ p.2.depth ≤ depth := by
  rcases List.mem_cons.1 hp with rfl | hp
  · exact ⟨h, hdepth⟩
  · obtain ⟨hfaithful, hle⟩ := hcomponents hp
    exact ⟨hfaithful, hle.trans hdepth⟩

mutual

/-- A shape that reads what it writes is made of shapes that do, and that nest no
deeper. -/
theorem Shape.faithful_of_mem_components :
    {α : Type} → (shape : Shape α) → shape.Faithful → p ∈ shape.components →
      p.2.Faithful ∧ p.2.depth ≤ shape.depth
  | _, .text .., _, hp => nomatch hp
  | _, .count, _, hp => nomatch hp
  | _, .anything, _, hp => nomatch hp
  | _, .choice .., _, hp => nomatch hp
  | _, .option shape, h, hp =>
      shape.faithful_of_mem_cons h.1 (shape.faithful_of_mem_components h.1) (Nat.le_refl _) hp
  | _, .list shape, h, hp =>
      shape.faithful_of_mem_cons h (shape.faithful_of_mem_components h) (Nat.le_succ _) hp
  | _, .textTable, _, hp => nomatch hp
  | _, .either _ leftShape _ rightShape, h, hp => by
      obtain ⟨-, hleft, hright⟩ := h
      rw [Shape.depth]
      rcases List.mem_append.1 hp with hp | hp
      · have hdepth := Nat.le_succ_of_le (Nat.le_max_left leftShape.depth rightShape.depth)
        exact leftShape.faithful_of_mem_cons hleft (leftShape.faithful_of_mem_components hleft)
          hdepth hp
      · have hdepth := Nat.le_succ_of_le (Nat.le_max_right leftShape.depth rightShape.depth)
        exact rightShape.faithful_of_mem_cons hright (rightShape.faithful_of_mem_components hright)
          hdepth hp
  | _, .record _ fields _ _, h, hp => by
      obtain ⟨hfaithful, hdepth⟩ := fields.faithful_of_mem_components h.1 hp
      exact ⟨hfaithful, Nat.le_succ_of_le hdepth⟩
  | _, .checked shape _ _, h, hp =>
      shape.faithful_of_mem_cons h.1 (shape.faithful_of_mem_components h.1) (Nat.le_refl _) hp
  | _, .named _ _ shape, h, hp =>
      shape.faithful_of_mem_cons h (shape.faithful_of_mem_components h) (Nat.le_refl _) hp

theorem Fields.faithful_of_mem_components :
    {σ τ : Type} → (fields : Fields σ τ) → fields.Faithful → p ∈ fields.components →
      p.2.Faithful ∧ p.2.depth ≤ fields.depth
  | _, _, .nil, _, hp => nomatch hp
  | _, _, .cons _ shape rest, h, hp => by
      obtain ⟨hshape, -, hrest⟩ := h
      rw [Fields.depth]
      rcases List.mem_append.1 hp with hp | hp
      · have hdepth := Nat.le_max_left shape.depth rest.depth
        exact shape.faithful_of_mem_cons hshape (shape.faithful_of_mem_components hshape) hdepth hp
      · obtain ⟨hfaithful, hdepth⟩ := rest.faithful_of_mem_components hrest hp
        exact ⟨hfaithful, hdepth.trans (Nat.le_max_right _ _)⟩

end

end Components

section Conditions

variable {α β σ τ : Type} {rest : Fields σ τ}

theorem Shape.faithful_string :
    Shape.string.Faithful := by
  intro s a h
  exact ⟨a, rfl, rfl⟩

/-- Types that correspond are read back like each other. -/
theorem Shape.faithful_mapped
    {shape : Shape α} {forth : α → β} {back : β → α} (h : shape.Faithful)
    (hback : ∀ a, back (forth a) = a) :
    (shape.mapped forth back).Faithful := by
  refine ⟨h, fun room a b ha hb => ?_⟩
  cases hb
  rw [hback]
  exact ⟨ha, rfl⟩

namespace Fields

theorem faithful_nil :
    Fields.nil.Faithful :=
  trivial

/-- A field that has to be given. -/
theorem faithful_required
    {field : Field α} {shape : Shape α} (hfield : field.absence = .refused)
    (h : shape.Faithful) (hrest : rest.Faithful) :
    (Fields.cons field shape rest).Faithful := by
  refine ⟨h, fun room a ha => ?_, hrest⟩
  rw [hfield] at ha
  exact ha.elim

/-- A field that may be `null` as well as left out. -/
theorem faithful_optional
    {field : Field (Option α)} {shape : Shape α} (hfield : field.absence = .omitted none)
    (h : shape.Faithful) (hnull : ∀ a, shape.write a ≠ .null) (hrest : rest.Faithful) :
    (Fields.cons field (.option shape) rest).Faithful := by
  refine ⟨⟨h, hnull⟩, fun room a ha => ?_, hrest⟩
  rw [hfield] at ha
  cases ha
  exact nofun

/-- A list that is empty when it is left out. -/
theorem faithful_list
    {field : Field (List α)} {shape : Shape α} (hfield : field.absence = .defaulted [])
    (h : shape.Faithful) (hrest : rest.Faithful) :
    (Fields.cons field (.list shape) rest).Faithful := by
  refine ⟨h, fun room a ha => ?_, hrest⟩
  rw [hfield] at ha
  cases ha
  exact nofun

/-- Tags, whatever stands for them when they are left out. -/
theorem faithful_tags
    {field : Field Tags} (hrest : rest.Faithful) :
    (Fields.cons field .textTable rest).Faithful :=
  ⟨trivial, fun _ _ _ => trivial, hrest⟩

end Fields

end Conditions

section Projects

open Fields Shape

theorem faithful_projectReference :
    projectReference.Faithful := by
  intro s t h
  cases h
  exact ⟨s, rfl, rfl⟩

theorem Bucket.faithful_shape :
    Bucket.shape.Faithful := by
  refine ⟨?_, by decide, fun _ => rfl⟩
  exact faithful_required rfl faithful_string <|
    faithful_optional rfl faithful_string nofun faithful_nil

theorem Delivery.faithful_shape :
    Delivery.shape.Faithful := by
  refine faithful_mapped ⟨by decide, faithful_string, Bucket.faithful_shape⟩ fun c => ?_
  cases c <;> rfl

theorem Delivery.write_ne_null
    (d : Delivery) :
    Delivery.shape.write d ≠ .null := by
  cases d <;> nofun

theorem Project.faithful_shape :
    Project.shape.Faithful := by
  refine ⟨?_, by decide, fun _ => rfl⟩
  exact faithful_required rfl faithful_string <|
    faithful_optional rfl faithful_string nofun <|
    faithful_optional rfl Delivery.faithful_shape Delivery.write_ne_null <|
    faithful_tags faithful_nil

end Projects

section Features

open Fields Shape

theorem ValueType.mem_all
    (t : ValueType) :
    t ∈ ValueType.all := by
  cases t <;> decide

theorem faithful_featureReference :
    featureReference.Faithful :=
  faithful_string

theorem faithful_variationReference :
    variationReference.Faithful :=
  faithful_string

theorem ValueType.faithful_shape :
    ValueType.shape.Faithful := by
  intro name t _
  cases t <;> rfl

theorem UntypedVariation.faithful_shape :
    UntypedVariation.shape.Faithful := by
  refine ⟨?_, by decide, fun _ => rfl⟩
  exact faithful_optional rfl faithful_string nofun <|
    faithful_required rfl ValueType.faithful_shape <|
    faithful_required rfl trivial faithful_nil

/-- The value of a number is finite, also where an integer stands for it. -/
theorem Value.finite_of_ofJson?
    {room : Nat} {v : Json} (h : v.Kept room) {t : ValueType} {x : Binary64}
    (hx : Value.ofJson? t v = some (.double x)) :
    x.isFinite := by
  rw [Value.ofJson?.eq_def] at hx
  split at hx
  · cases hx
  · cases hx
    cases h with
    | number hrange =>
        cases hrange with
        | integer least greatest => exact Binary64.isFinite_ofInt (by omega)
  · cases hx
    cases h with
    | number hrange =>
        cases hrange with
        | float finite => exact finite
  · split at hx <;> cases hx
  · cases hx
  · cases hx

/-- A value has its own type, and a JSON form that can be kept. -/
theorem Value.kept_json
    (room : Nat) (value : Value) (h : ∀ x, value = .double x → x.isFinite) :
    value.json.Kept room ∧ Value.ofJson? value.valueType value.json = some value := by
  cases value with
  | boolean b => exact ⟨.bool, rfl⟩
  | double x =>
      have hform : (Value.double x).json = .float x := if_pos (h x rfl)
      rw [hform]
      exact ⟨.number (.float (h x rfl)), rfl⟩
  | long n =>
      have hleast := n.le_toInt
      have hgreatest := n.toInt_lt
      refine ⟨.number (.integer hleast (by omega)), ?_⟩
      rw [valueType, json, ofJson?, twoPow_eq, if_pos ⟨hleast, hgreatest⟩, n.ofInt_toInt]
  | string s => exact ⟨.string, rfl⟩

theorem Variation.ofUntyped_eq_ok_iff
    {v : UntypedVariation} {w : Variation} :
    Variation.ofUntyped v = .ok w ↔
      Value.ofJson? v.valueType v.value = some w.value ∧ v.label = w.label := by
  rw [Variation.ofUntyped]
  cases w with
  | mk label value => cases Value.ofJson? v.valueType v.value <;> simp [and_comm]

/-- The value of a variation is written as a value that fits its type again. -/
theorem Variation.faithful_shape :
    Variation.shape.Faithful := by
  refine ⟨UntypedVariation.faithful_shape, fun room v w hv hw => ?_⟩
  obtain ⟨⟨label, valueType, value, _⟩, ⟨-, -, hvalue, -⟩, rfl⟩ := hv
  have hvalue : value.Kept (room - 1) := hvalue.elim id nofun
  obtain ⟨hjson, -⟩ := Variation.ofUntyped_eq_ok_iff.1 hw
  -- A number is written as one even if it was an integer, and only finite ones can be.
  have hfinite : ∀ x, w.value = .double x → x.isFinite := fun x hx =>
    Value.finite_of_ofJson? hvalue (hjson.trans (congrArg some hx))
  obtain ⟨hkept, hagain⟩ := Value.kept_json (room - 1) w.value hfinite
  refine ⟨⟨(w.label, w.valueType, w.value.json, ()), ?_, rfl⟩, ?_⟩
  · have hlabel : (w.valueType.label, w.valueType) ∈
        ValueType.all.map fun t => (t.label, t) :=
      List.mem_map_of_mem (ValueType.mem_all w.valueType)
    exact ⟨.inl fun s _ => ⟨s, rfl⟩, .inl ⟨w.valueType.label, hlabel⟩, .inl hkept, trivial⟩
  · exact Variation.ofUntyped_eq_ok_iff.2 ⟨hagain, rfl⟩

theorem Evaluation.faithful_shape :
    Evaluation.shape.Faithful := by
  intro name e _
  cases e <;> rfl

theorem Override.faithful_shape :
    Override.shape.Faithful := by
  refine ⟨?_, by decide, fun _ => rfl⟩
  exact faithful_required rfl faithful_string <|
    faithful_required rfl faithful_string faithful_nil

theorem Feature.faithful_shape :
    Feature.shape.Faithful := by
  refine ⟨?_, by decide, fun _ => rfl⟩
  exact faithful_required rfl faithful_string <|
    faithful_required rfl faithful_projectReference <|
    faithful_required rfl Variation.faithful_shape <|
    faithful_list rfl Override.faithful_shape <|
    faithful_optional rfl faithful_string nofun <|
    faithful_optional rfl Evaluation.faithful_shape nofun <|
    faithful_optional rfl faithful_string nofun <|
    faithful_tags faithful_nil

end Features

section Experiments

open Fields Shape

theorem Direction.faithful_shape :
    Direction.shape.Faithful := by
  intro name d _
  cases d <;> rfl

theorem Goal.faithful_shape :
    Goal.shape.Faithful := by
  refine ⟨?_, by decide, fun _ => rfl⟩
  exact faithful_required rfl Direction.faithful_shape <|
    faithful_required rfl faithful_string <|
    faithful_required rfl faithful_string <|
    faithful_required rfl faithful_string <|
    faithful_required rfl faithful_string <|
    faithful_optional rfl faithful_string nofun faithful_nil

theorem TreatmentWeight.faithful_shape :
    TreatmentWeight.shape.Faithful := by
  refine ⟨?_, by decide, fun _ => rfl⟩
  exact faithful_required rfl faithful_string <|
    faithful_required rfl trivial faithful_nil

theorem Split.faithful_shape :
    Split.shape.Faithful := by
  refine ⟨?_, by decide, fun _ => rfl⟩
  exact faithful_optional rfl faithful_string nofun <|
    faithful_list rfl TreatmentWeight.faithful_shape faithful_nil

theorem Treatment.faithful_shape :
    Treatment.shape.Faithful := by
  refine ⟨?_, by decide, fun _ => rfl⟩
  exact faithful_required rfl faithful_featureReference <|
    faithful_required rfl faithful_string <|
    faithful_required rfl faithful_variationReference <|
    faithful_optional rfl faithful_string nofun faithful_nil

theorem Experiment.faithful_shape :
    Experiment.shape.Faithful := by
  refine ⟨?_, by decide, fun _ => rfl⟩
  exact faithful_required rfl faithful_string <|
    faithful_required rfl faithful_projectReference <|
    faithful_required rfl Goal.faithful_shape <|
    faithful_required rfl Split.faithful_shape <|
    faithful_required rfl Treatment.faithful_shape <|
    faithful_optional rfl faithful_string nofun <|
    faithful_optional rfl faithful_string nofun <|
    faithful_optional rfl trivial nofun <|
    faithful_tags faithful_nil

end Experiments

section Launches

open Fields Shape

/-- A timestamp is read back from its stamp. -/
theorem Instant.faithful_shape :
    Instant.shape.Faithful := by
  intro s t h
  have hparse := mapError_eq_ok_iff.1 h
  exact ⟨t.stamp, rfl, mapError_eq_ok_iff.2 (Timestamp.parse_stamp hparse)⟩

theorem Group.faithful_shape :
    Group.shape.Faithful := by
  refine ⟨?_, by decide, fun _ => rfl⟩
  exact faithful_required rfl faithful_featureReference <|
    faithful_required rfl faithful_string <|
    faithful_required rfl faithful_variationReference <|
    faithful_optional rfl faithful_string nofun faithful_nil

theorem GroupWeight.faithful_shape :
    GroupWeight.shape.Faithful := by
  refine ⟨?_, by decide, fun _ => rfl⟩
  exact faithful_required rfl faithful_string <|
    faithful_required rfl trivial faithful_nil

theorem LaunchStep.faithful_shape :
    LaunchStep.shape.Faithful := by
  refine ⟨?_, by decide, fun _ => rfl⟩
  exact faithful_required rfl GroupWeight.faithful_shape <|
    faithful_required rfl Instant.faithful_shape faithful_nil

theorem Launch.faithful_shape :
    Launch.shape.Faithful := by
  refine ⟨?_, by decide, fun _ => rfl⟩
  exact faithful_required rfl faithful_string <|
    faithful_required rfl faithful_projectReference <|
    faithful_list rfl Group.faithful_shape <|
    faithful_list rfl LaunchStep.faithful_shape <|
    faithful_optional rfl faithful_string nofun <|
    faithful_optional rfl faithful_string nofun <|
    faithful_tags faithful_nil

end Launches

namespace Config

open Fields Shape

theorem faithful_shape :
    Config.shape.Faithful := by
  refine ⟨?_, by decide, fun _ => rfl⟩
  exact faithful_required rfl faithful_string <|
    faithful_optional rfl faithful_string nofun <|
    faithful_optional rfl faithful_string nofun <|
    faithful_list rfl Project.faithful_shape <|
    faithful_list rfl Feature.faithful_shape <|
    faithful_list rfl Experiment.faithful_shape <|
    faithful_list rfl Launch.faithful_shape faithful_nil

theorem depth_shape_le :
    Config.shape.depth ≤ Json.greatestDepth := by
  decide

/-- What is decoded of a text as a config, or as one of the types that a config is made
of, is decoded again of the text that is written of it.  So this text is not changed by
decoding and writing it again. -/
theorem components_round_trip
    {p : Σ β : Type, Shape β} (hp : p ∈ ⟨Config, shape⟩ :: shape.components)
    {text : String} {a : p.1} (hread : p.2.decode text = .ok a)
    (hfloats : (p.2.write a).FloatsReadBack) :
    p.2.decode (p.2.encode a) = .ok a ∧
      (p.2.decode (p.2.encode a)).map p.2.encode = .ok (p.2.encode a) := by
  have hcondition : p.2.Faithful ∧ p.2.depth ≤ Json.greatestDepth :=
    shape.faithful_of_mem_cons faithful_shape (shape.faithful_of_mem_components faithful_shape)
      depth_shape_le hp
  have hagain := Shape.decode_encode hcondition.1 hcondition.2 hread hfloats
  exact ⟨hagain, congrArg (Except.map p.2.encode) hagain⟩

/-- The types with names of their own that a config is made of. -/
example :
    (shape.components.filterMap fun
      | ⟨_, .named name _ _⟩ => some name
      | ⟨_, .record name _ _ _⟩ => some name
      | _ => none).eraseDups =
    ["AppConfig", "ProjectProps", "DataDelivery", "S3Destination", "FeatureProps", "ProjectRef",
      "Variation", "RawVariation", "VariationValueType", "EntityOverride", "EvaluationStrategy",
      "ExperimentProps", "MetricGoal", "DesiredChange", "OnlineAbConfig", "TreatmentToWeight",
      "TreatmentConfig", "FeatureRef", "VariationRef", "LaunchProps", "LaunchGroup",
      "StepConfig", "GroupToWeight"] := by
  decide +kernel

/-- A config with one feature, which has a number for its only variation. -/
def oneNumber : Config :=
  ⟨"s", none, none, [],
    [⟨"f", .literal "p", [⟨none, .double (Binary64.ofInt 1)⟩], [⟨"e", "v"⟩], none, none, none,
      Table.empty⟩], [], []⟩

/-- The config as an array, with an integer for the number and another name for a field. -/
def oneNumberText : String :=
  "[\"s\", null, null, [], [\x7b\"project\": \"p\", \"name\": \"f\", \"variations\": " ++
    "[\x7b\"valueType\": \"DOUBLE\", \"value\": 1\x7d], \"entityOverrides\": " ++
    "[\x7b\"entityId\": \"e\", \"variation\": \"v\"\x7d]\x7d]]"

theorem oneNumber_round_trip :
    shape.decode oneNumberText = .ok oneNumber ∧ (shape.write oneNumber).FloatsReadBack ∧
      shape.decode (shape.encode oneNumber) = .ok oneNumber := by
  have hread : shape.decode oneNumberText = .ok oneNumber := by decide +kernel
  have hfloats : (shape.write oneNumber).FloatsReadBack := by decide +kernel
  have hagain := components_round_trip (p := ⟨Config, shape⟩) List.mem_cons_self hread hfloats
  exact ⟨hread, hfloats, hagain.1⟩

end Config

end FlagStack
