import FlagStack.Proofs.Definitions
import FlagStack.Proofs.KeptValues

/-!
# What decoding can give

The values that a shape can be read into, whatever the text: a record is built of
what its fields can be read into or stand for when they are absent, and so on for
the other shapes.  How deep containers may be nested matters only where a shape
admits any JSON value.

**Results.**
* `Shape.gives_read`: what is read is one of these values.
* `Config.literal_of_decode`: a definition of a config that has been decoded names
  its project by a literal.
-/

namespace FlagStack

/-- A value that stands for a field that is not given. -/
def Absence.Allows {α : Type} (a : α) : Absence α → Prop
  | .refused => False
  | .omitted b => a = b
  | .defaulted b => a = b

mutual

/-- Values that can be read of a shape with room for so many containers. -/
def Shape.Yields (room : Nat) : {α : Type} → Shape α → α → Prop
  | _, .text _ _ accept _, a => ∃ s, accept s = .ok a
  | _, .count, _ => True
  | _, .anything, v => v.Kept room
  | _, .choice names _, a => ∃ name, (name, a) ∈ names
  | _, .option shape, o => ∀ a ∈ o, shape.Yields room a
  | _, .list shape, l => ∀ a ∈ l, shape.Yields (room - 1) a
  | _, .textTable, _ => True
  | _, .either _ leftShape _ rightShape, c =>
      (∀ a, c = .inl a → leftShape.Yields (room - 1) a) ∧
        ∀ b, c = .inr b → rightShape.Yields (room - 1) b
  | _, .record _ fields build _, a => ∃ values, fields.Yields (room - 1) values ∧ build values = a
  | _, .checked shape accept _, b => ∃ a, shape.Yields room a ∧ accept a = .ok b
  | _, .named _ _ shape, a => shape.Yields room a

/-- Values that can be read of the fields of a record. -/
def Fields.Yields (room : Nat) : {σ τ : Type} → Fields σ τ → σ → Prop
  | _, _, .nil, _ => True
  | _, _, .cons field shape rest, (a, values) =>
      (shape.Yields room a ∨ field.absence.Allows a) ∧ rest.Yields room values

end

/-- The slots that are filled hold what can be read of their fields. -/
def Fields.Filled (room : Nat) : {σ τ : Type} → Fields σ τ → τ → Prop
  | _, _, .nil, _ => True
  | _, _, .cons _ shape rest, (slot, slots) =>
      (∀ a ∈ slot, shape.Yields room a) ∧ rest.Filled room slots

namespace Fields

open Json

theorem filled_unfilled
    (room : Nat) :
    {σ τ : Type} → (fields : Fields σ τ) → fields.Filled room fields.unfilled
  | _, _, .nil => trivial
  | _, _, .cons _ _ rest => by
      rw [unfilled, Filled]
      exact ⟨fun a ha => (by cases ha), filled_unfilled room rest⟩

/-- What stands in the slots, and for those that are empty what the field allows. -/
theorem gives_collect
    {room : Nat} :
    {σ τ : Type} → (fields : Fields σ τ) → (slots : τ) → fields.Filled room slots →
      Reader.Gives (fields.collect slots) (fields.Yields room)
  | _, _, .nil, _, _ => gives_pure trivial
  | _, _, .cons field shape rest, (slot, slots), h => by
      obtain ⟨hslot, hslots⟩ := h
      have htail : ∀ a, shape.Yields room a ∨ field.absence.Allows a →
          Reader.Gives (do return (a, ← rest.collect slots))
            ((Fields.cons field shape rest).Yields room) :=
        fun a ha => gives_bind (gives_collect rest slots hslots) fun values hvalues =>
          gives_pure ⟨ha, hvalues⟩
      cases slot with
      | some a => exact htail a (.inl (hslot a rfl))
      | none =>
          obtain ⟨name, aliases, absence, description⟩ := field
          cases absence with
          | refused => exact gives_throw_bind _ _
          | omitted a => exact htail a (.inr rfl)
          | defaulted a => exact htail a (.inr rfl)

end Fields

section Reading

open Json

mutual

/-- What is read of a shape is one of its values. -/
theorem Shape.gives_read
    (bound : Nat) :
    {α : Type} → (shape : Shape α) → (room : Nat) →
      (shape.read bound room).Gives (shape.Yields room)
  | _, .text expected _ accept _, room => by
      rw [Shape.read]
      refine gives_bind_of_forall fun s => ?_
      cases h : accept s with
      | error reason => exact gives_throw _
      | ok a => exact gives_pure ⟨s, h⟩
  | _, .count, room => gives_trivial _
  | _, .anything, room => gives_readValue bound room
  | _, .choice names _, room => Shape.gives_readChoice names room
  | _, .option shape, room => Shape.gives_readOption (shape.gives_read bound room)
  | _, .list shape, room =>
      Shape.gives_readContainer fun r hr => by
        subst hr
        exact gives_items (shape.gives_read bound r) bound fun a ha => (by cases ha)
  | _, .textTable, room => gives_trivial _
  | _, .either left leftShape right rightShape, room => by
      rw [Shape.read]
      refine Shape.gives_readAlternative ?_ (gives_nested fun r hr => ?_)
      · exact gives_bind_of_forall fun _ => gives_bind_of_forall fun _ => gives_throw _
      · subst hr
        have hclose : ∀ c, (Shape.either left leftShape right rightShape).Yields (r + 1) c →
            Reader.Gives (do Shape.closeAlternative; return c)
              ((Shape.either left leftShape right rightShape).Yields (r + 1)) :=
          fun c hc => gives_bind_of_forall fun _ => gives_pure hc
        refine gives_bind_of_forall fun isLeft => ?_
        cases isLeft with
        | true =>
            refine gives_bind (gives_map fun s a rest h => ?_) hclose
            have ha := leftShape.gives_read bound r s a rest h
            exact ⟨fun b hb => (by cases hb; exact ha), fun b hb => (by cases hb)⟩
        | false =>
            refine gives_bind (gives_map fun s b rest h => ?_) hclose
            have hb := rightShape.gives_read bound r s b rest h
            exact ⟨fun a ha => (by cases ha), fun a ha => (by cases ha; exact hb)⟩
  | _, .record name fields build _, room => by
      intro s a rest h
      simp only [Shape.read] at h
      split at h
      · refine gives_nested (fun r hr => ?_) _ _ _ h
        subst hr
        refine gives_bind (fields.gives_readItems bound r name fields.count 0) ?_
        exact fun values hvalues => gives_bind_of_forall fun _ =>
          gives_pure ⟨values, hvalues, rfl⟩
      · refine gives_nested (fun r hr => ?_) _ _ _ h
        subst hr
        have hmember := fields.gives_readMember bound r
        refine gives_bind (gives_members hmember bound (fields.filled_unfilled r)) ?_
        intro slots hslots
        refine gives_bind (fields.gives_collect slots hslots) ?_
        exact fun values hvalues => gives_pure ⟨values, hvalues, rfl⟩
      · cases h
      · cases h
  | _, .checked shape accept _, room => by
      rw [Shape.read]
      refine gives_bind (shape.gives_read bound room) fun a ha => ?_
      cases h : accept a with
      | error reason => exact gives_throw _
      | ok b => exact gives_pure ⟨a, ha, h⟩
  | _, .named _ _ shape, room => shape.gives_read bound room

/-- A member that is read fills its slot with what can be read of its field. -/
theorem Fields.gives_readMember
    (bound room : Nat) :
    {σ τ : Type} → (fields : Fields σ τ) → (key : String) → (slots : τ) →
      fields.Filled room slots →
      (fields.readMember bound room key slots).Gives (fields.Filled room)
  | _, _, .nil, _, _, _ => gives_trivial _
  | _, _, .cons field shape rest, key, (slot, slots), h => by
      obtain ⟨hslot, hslots⟩ := h
      have hread : Reader.Gives (do colon; return (some (← shape.read bound room), slots))
          ((Fields.cons field shape rest).Filled room) := by
        refine gives_bind_of_forall fun _ => ?_
        refine gives_bind (shape.gives_read bound room) fun a ha => gives_pure ⟨?_, hslots⟩
        intro b hb
        cases hb
        exact ha
      rw [Fields.readMember]
      split
      · cases slot with
        | none => exact hread
        | some _ => exact gives_throw_bind _ _
      · refine gives_bind (rest.gives_readMember bound room key slots hslots) ?_
        exact fun left hleft => gives_pure ⟨hslot, hleft⟩

/-- What is read of an array, and for fields behind its end what the field
allows. -/
theorem Fields.gives_readItems
    (bound room : Nat) (name : String) (total : Nat) :
    {σ τ : Type} → (fields : Fields σ τ) → (index : Nat) →
      (fields.readItems bound room name total index).Gives (fields.Yields room)
  | _, _, .nil, _ => gives_pure trivial
  | _, _, .cons field shape rest, index => by
      have htail : ∀ a, shape.Yields room a ∨ field.absence.Allows a →
          Reader.Gives (do return (a, ← rest.readItems bound room name total (index + 1)))
            ((Fields.cons field shape rest).Yields room) :=
        fun a ha => gives_bind (rest.gives_readItems bound room name total (index + 1))
          fun values hvalues => gives_pure ⟨ha, hvalues⟩
      rw [Fields.readItems]
      refine gives_bind_of_forall fun more => ?_
      cases more with
      | true => exact gives_bind (shape.gives_read bound room) fun a ha => htail a (.inl ha)
      | false =>
          obtain ⟨name, aliases, absence, description⟩ := field
          cases absence with
          | refused => exact gives_throw_bind _ _
          | omitted a => exact gives_throw_bind _ _
          | defaulted a => exact htail a (.inr rfl)

end

/-- What is decoded of a text is one of the values of the shape. -/
theorem Shape.yields_of_decode
    {α : Type} {shape : Shape α} {text : String} {a : α} (h : shape.decode text = .ok a) :
    shape.Yields greatestDepth a :=
  of_readAll (fun bound => shape.gives_read bound greatestDepth) h

end Reading

section Projects

variable {room : Nat}

/-- A reference to a project is read as a literal. -/
theorem literal_of_yields_required
    {name : String} {t : Token}
    (h : projectReference.Yields room t ∨ (Field.required name).absence.Allows t) :
    ∃ s, t = .literal s := by
  rcases h with ⟨s, hs⟩ | h
  · cases hs
    exact ⟨s, rfl⟩
  · cases h

theorem Feature.literal_of_yields
    {f : Feature} (h : Feature.shape.Yields room f) :
    ∃ s, f.project = .literal s := by
  obtain ⟨⟨name, project, rest⟩, ⟨-, hproject, -⟩, rfl⟩ := h
  exact literal_of_yields_required hproject

theorem Experiment.literal_of_yields
    {e : Experiment} (h : Experiment.shape.Yields room e) :
    ∃ s, e.project = .literal s := by
  obtain ⟨⟨name, project, rest⟩, ⟨-, hproject, -⟩, rfl⟩ := h
  exact literal_of_yields_required hproject

theorem Launch.literal_of_yields
    {l : Launch} (h : Launch.shape.Yields room l) :
    ∃ s, l.project = .literal s := by
  obtain ⟨⟨name, project, rest⟩, ⟨-, hproject, -⟩, rfl⟩ := h
  exact literal_of_yields_required hproject

namespace Config

/-- A list that is a field of a config holds values of its shape, also where it is
not given. -/
theorem forall_of_yields_defaulted
    {α : Type} {shape : Shape α} {name : String} {l : List α}
    (h : (Shape.list shape).Yields room l ∨ (Field.defaulted name []).absence.Allows l) :
    ∀ a ∈ l, shape.Yields (room - 1) a := by
  rcases h with h | h
  · exact h
  · intro a ha
    rw [show l = [] from h] at ha
    cases ha

/-- A definition of a config that has been decoded names its project by a
literal. -/
theorem literal_of_decode
    {text : String} {c : Config} (h : decode text = .ok c) :
    ∀ r ∈ c.definitions, ∀ t, r.project? = some t → ∃ s, t = .literal s := by
  obtain ⟨read, hread, hcheck⟩ := bind_eq_ok_iff.1 h
  obtain ⟨-, -, hc⟩ := bind_eq_ok_iff.1 hcheck
  cases hc
  obtain ⟨⟨stackName, account, region, projects, features, experiments, launches, _⟩,
    ⟨-, -, -, -, hfeatures, hexperiments, hlaunches, -⟩, rfl⟩ := Shape.yields_of_decode (mapError_eq_ok_iff.1 hread)
  rw [forall_definitions_iff]
  refine ⟨?_, ?_, ?_, ?_⟩
  · intro p _ t ht
    cases ht
  · intro f hf t ht
    cases ht
    exact Feature.literal_of_yields (forall_of_yields_defaulted hfeatures f hf)
  · intro e he t ht
    cases ht
    exact Experiment.literal_of_yields (forall_of_yields_defaulted hexperiments e he)
  · intro l hl t ht
    cases ht
    exact Launch.literal_of_yields (forall_of_yields_defaulted hlaunches l hl)

end Config

end Projects
end FlagStack
