import FlagStack.Proofs.SynthesisEquation
import FlagStack.Proofs.TemplateAccess

/-!
# What asking for outputs changes

Synthesis may be asked to expose the resource name of every resource that it makes.
The keys of these outputs are made from logical ids, and they go through a filter and
a check for duplicates of their own.  Since logical ids differ and are filtered to
themselves, neither has anything to object to: outputs are added to what synthesis
gives without them, and nothing else changes.

**Results.**
* `filled_exposes`: a stack that is filled with outputs, and one that is filled without.
* `synthesize_exposes`: the verdict of synthesis is the same, and one output is added
  for each resource.
-/

namespace FlagStack

/-- The second stack is the first with the resource name of every resource exposed. -/
structure Stack.Exposes (plain exposed : Stack) : Prop where
  name : exposed.name = plain.name
  partition : exposed.partition = plain.partition
  region : exposed.region = plain.region
  account : exposed.account = plain.account
  resources : exposed.resources = plain.resources
  plainOutputs : plain.outputs = Table.empty
  /-- The template of the first has no outputs at all. -/
  plainTemplate : plain.template.member? "Outputs" = none
  /-- There is one output for each logical id, and no other. -/
  outputs : ∀ key o, exposed.outputs.get? key = some o ↔
    ∃ id, plain.resources.contains id ∧ key = id ++ "Arn" ∧ o = ⟨.attribute id "Arn", none⟩
  count : exposed.outputs.size = plain.resources.size

theorem Stack.member?_outputs_of_empty
    {s : Stack} (h : s.outputs = Table.empty) :
    s.template.member? "Outputs" = none := by
  have hempty : s.outputs.isEmpty = true := by
    rw [h]
    rfl
  simp [template, hempty]

namespace Synthesis

variable {resolution : Token → Token} {base : Stack} {made : List (String × Resource)}

/-- Definitions under ids that differ have an output each. -/
theorem filled_exposes
    (hnodup : (made.map Prod.fst).Nodup) (strict : Bool) :
    Stack.Exposes (filled ⟨strict, false⟩ resolution base made)
      (filled ⟨strict, true⟩ resolution base made) := by
  have hresources : ((made.map fun m => (m.1, m.2.mapProject resolution)).map Prod.fst).Nodup := by
    rw [List.map_map]
    exact hnodup
  have houtputs := nodup_arnOutputs hnodup
  constructor
  case name => rfl
  case partition => rfl
  case region => rfl
  case account => rfl
  case resources => rfl
  case plainOutputs => rfl
  case plainTemplate => exact Stack.member?_outputs_of_empty rfl
  case outputs =>
    intro key o
    have hcontains : ∀ id, (filled ⟨strict, false⟩ resolution base made).resources.contains id ↔
        ∃ m ∈ made, m.1 = id := by
      intro id
      simp only [filled]
      rw [Table.contains_ofList hresources, List.map_map]
      exact List.mem_map
    simp only [filled, if_true]
    rw [Table.get?_ofList_eq_some_iff houtputs, List.mem_map]
    constructor
    · rintro ⟨m, hm, heq⟩
      cases heq
      exact ⟨m.1, (hcontains m.1).2 ⟨m, hm, rfl⟩, rfl, rfl⟩
    · rintro ⟨id, hid, rfl, rfl⟩
      obtain ⟨m, hm, rfl⟩ := (hcontains id).1 hid
      exact ⟨m, hm, rfl⟩
  case count =>
    simp only [filled, if_true]
    rw [Table.size_ofList houtputs, Table.size_ofList hresources, List.length_map,
      List.length_map]

end Synthesis

namespace Config

open Synthesis

/-- With and without outputs synthesis gives the same error, or it gives stacks that
differ in one output for each resource and in nothing else. -/
theorem synthesize_exposes
    (c : Config) (strict : Bool) :
    (∃ e, c.synthesize ⟨strict, false⟩ = .error e ∧ c.synthesize ⟨strict, true⟩ = .error e) ∨
      ∃ plain exposed, c.synthesize ⟨strict, false⟩ = .ok plain ∧
        c.synthesize ⟨strict, true⟩ = .ok exposed ∧ plain.Exposes exposed := by
  rcases c.error_or_filled alphanumeric_ofText strict with
      ⟨e, he⟩ | ⟨made, resolution, hnodup, hfilled⟩
  · exact .inl ⟨e, he false, he true⟩
  · exact .inr ⟨_, _, hfilled false, hfilled true, filled_exposes hnodup strict⟩

end Config
end FlagStack
