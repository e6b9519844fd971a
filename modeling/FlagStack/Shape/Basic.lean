import FlagStack.Json.Value

/-!
# Shapes

A shape says how the values of a type are written in a config file.  It is one
description with three uses: a reader, a writer and a schema are computed from
it, so they agree on names, order and defaults.

**Records** are written as objects, or as arrays of their fields in order.  What
a field that is not given stands for is part of the record's shape.
-/

namespace FlagStack

/-- What becomes of a field that is not given. -/
inductive Absence (α : Type) where
  /-- The record is refused. -/
  | refused
  /-- The value for an object that leaves the field out; an array must give it. -/
  | omitted (a : α)
  /-- The value for an object or array that leaves the field out. -/
  | defaulted (a : α)

/-- A field of a record.  Under an alias it is the same field. -/
structure Field (α : Type) where
  name : String
  aliases : List String
  absence : Absence α
  description : Option String

namespace Field

variable {α : Type}

/-- A field that has to be given. -/
def required (name : String) : Field α :=
  ⟨name, [], .refused, none⟩

/-- A field that an object may leave out. -/
def optional (name : String) : Field (Option α) :=
  ⟨name, [], .omitted none, none⟩

/-- A field that an object or array may leave out. -/
def defaulted (name : String) (default : α) : Field α :=
  ⟨name, [], .defaulted default, none⟩

/-- The field with another name under which it may be given. -/
def alsoNamed (field : Field α) (name : String) : Field α :=
  { field with aliases := field.aliases ++ [name] }

/-- The field with a description for a schema. -/
def described (field : Field α) (description : String) : Field α :=
  { field with description := some description }

/-- The key names the field. -/
def answers (field : Field α) (key : String) : Bool :=
  key == field.name || field.aliases.contains key

end Field

mutual

/-- How values of a type are written. -/
inductive Shape : Type → Type 1
  /-- A string that is read into a value, or refused with a reason. -/
  | text {α : Type} (expected : String) (format : Option String)
      (read : String → Except String α) (write : α → Json) : Shape α
  /-- A natural number below `2 ^ 32`. -/
  | count : Shape UInt32
  /-- Any JSON value. -/
  | anything : Shape Json
  /-- One of some names. -/
  | choice {α : Type} (names : List (String × α)) (nameOf : α → String) : Shape α
  /-- A value or `null`. -/
  | option {α : Type} (shape : Shape α) : Shape (Option α)
  | list {α : Type} (shape : Shape α) : Shape (List α)
  /-- An object with arbitrary keys whose values are strings. -/
  | textTable : Shape (Table String)
  /-- An object with exactly one of two keys. -/
  | either {α β : Type} (left : Field α) (leftShape : Shape α)
      (right : Field β) (rightShape : Shape β) : Shape (α ⊕ β)
  | record {σ τ α : Type} (name : String) (fields : Fields σ τ)
      (build : σ → α) (parts : α → σ) : Shape α
  /-- Values of another shape, some of them refused with a reason. -/
  | checked {α β : Type} (shape : Shape α) (accept : α → Except String β)
      (forget : β → α) : Shape β
  /-- A shape that a schema defines under a name. -/
  | named {α : Type} (name : String) (description : Option String) (shape : Shape α) : Shape α

/-- The fields of a record: the product of their types, and the product of the
slots that hold what has been read of them. -/
inductive Fields : Type → Type → Type 1
  | nil : Fields Unit Unit
  | cons {α σ τ : Type} (field : Field α) (shape : Shape α) (rest : Fields σ τ) :
      Fields (α × σ) (Option α × τ)

end

namespace Shape

/-- Any string. -/
def string : Shape String :=
  .text "a string" none .ok .string

/-- A string that is kept under another type. -/
def wrapped {α : Type} (wrap : String → α) (write : α → Json) : Shape α :=
  .text "a string" none (fun s => .ok (wrap s)) write

/-- Values of another shape that correspond to those of a type. -/
def mapped {α β : Type} (shape : Shape α) (forth : α → β) (back : β → α) : Shape β :=
  .checked shape (fun a => .ok (forth a)) back

end Shape

namespace Fields

/-- Number of fields. -/
def count : {σ τ : Type} → Fields σ τ → Nat
  | _, _, .nil => 0
  | _, _, .cons _ _ rest => rest.count + 1

/-- Slots of which none is filled. -/
def unfilled : {σ τ : Type} → Fields σ τ → τ
  | _, _, .nil => ()
  | _, _, .cons _ _ rest => (none, rest.unfilled)

end Fields
end FlagStack
