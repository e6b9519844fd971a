import FlagStack.Json.Printer
import FlagStack.Shape.Basic

/-!
# Writing values of a shape

A record is written as an object with all of its fields, in order and under
their primary names.
-/

namespace FlagStack

/-- A table of strings as an object. -/
def Json.ofTextTable (t : Table String) : Json :=
  .object (t.entries.map fun (key, value) => (key, .string value))

mutual

/-- The JSON form of a value. -/
def Shape.write : {α : Type} → Shape α → α → Json
  | _, .text _ _ _ write, a => write a
  | _, .count, n => .integer n.toNat
  | _, .anything, v => v
  | _, .choice _ nameOf, a => .string (nameOf a)
  | _, .option _, none => .null
  | _, .option shape, some a => shape.write a
  | _, .list shape, as => .array (as.map shape.write)
  | _, .textTable, t => .ofTextTable t
  | _, .either left shape _ _, .inl a => .object [(left.name, shape.write a)]
  | _, .either _ _ right shape, .inr b => .object [(right.name, shape.write b)]
  | _, .record _ fields _ parts, a => .object (fields.write (parts a))
  | _, .checked shape _ forget, b => shape.write (forget b)
  | _, .named _ _ shape, a => shape.write a

/-- The members of a record's object. -/
def Fields.write : {σ τ : Type} → Fields σ τ → σ → List (String × Json)
  | _, _, .nil, _ => []
  | _, _, .cons field shape rest, (a, values) =>
      (field.name, shape.write a) :: rest.write values

end

/-- The compact text of a value. -/
def Shape.encode {α : Type} (shape : Shape α) (a : α) : String :=
  (shape.write a).compact

end FlagStack
