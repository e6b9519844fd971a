import FlagStack.Proofs.ExactReaders

/-!
# What a spelled value means

The value that a shape sees in a spelling, if it sees one, without a text and without an
order in which things are read.  An object that is read as a record is asked for each
field: which members answer to it, and what is there for it if none does.

A reader goes the other way, from member to member, and puts what it reads into slots.
The result is the same.

**Results.**
* `Fields.foldlM_take`: slots filled one after the other, and fields asked one by one.
-/

namespace FlagStack

open Json

/-- What is there for a field that an object leaves out. -/
def Absence.value? {α : Type} : Absence α → Option α
  | .refused => none
  | .omitted a => some a
  | .defaulted a => some a

/-- What is there for a field behind the end of an array. -/
def Absence.default? {α : Type} : Absence α → Option α
  | .defaulted a => some a
  | _ => none

/-- What the one member among some stands for, or what is there if there is none. -/
def only {β : Type} (absent : Option β) (f : Spelling → Option β) :
    List (String × Spelling) → Option β
  | [] => absent
  | [m] => f m.2
  | _ => none

/-- What an object with exactly one member stands for, by its key. -/
def sole {β γ : Type} (names : List (String × γ)) (f : γ → Spelling → Option β) :
    List (String × Spelling) → Option β
  | [(key, v)] => (names.lookup key).bind fun a => f a v
  | _ => none

/-- One of some names, bare or as the key of `null`. -/
def Spelling.choice? {α : Type} (names : List (String × α)) (room : Nat) (v : Spelling) :
    Option α :=
  match v.string? with
  | some name => names.lookup name
  | none =>
      v.members?.bind fun ms => within room fun _ =>
        sole names (fun a v => if v.isNull then some a else none) ms

/-- Strings by their keys, of two under one key the last. -/
def Spelling.textTable? (room : Nat) (v : Spelling) : Option (Table String) :=
  v.members?.bind fun ms => within room fun _ =>
    ms.foldlM (fun t m => m.2.string?.map (t.put m.1)) Table.empty

mutual

/-- The value that a shape sees in a spelling, with room for so many containers. -/
def Shape.meaning : {α : Type} → Shape α → Nat → Spelling → Option α
  | _, .text _ _ accept _, _, v => v.string?.bind fun s => (accept s).toOption
  | _, .count, _, v => v.count?
  | _, .anything, room, v => v.value? room
  | _, .choice names _, room, v => v.choice? names room
  | _, .option shape, room, v => if v.isNull then some none else (shape.meaning room v).map some
  | _, .list shape, room, v =>
      v.items?.bind fun vs => within room fun room => vs.mapM (shape.meaning room)
  | _, .textTable, room, v => v.textTable? room
  | _, .either left leftShape right rightShape, room, v =>
      v.members?.bind fun ms => within room fun room =>
        sole [(left.name, true), (right.name, false)]
          (fun isLeft v =>
            if isLeft then (leftShape.meaning room v).map .inl
            else (rightShape.meaning room v).map .inr)
          ms
  | _, .record _ fields build _, room, v =>
      match v.items? with
      | some vs => within room fun room => (fields.meaningOfItems room vs).map build
      | none =>
          v.members?.bind fun ms => within room fun room => (fields.meaning room ms).map build
  | _, .checked shape accept _, room, v =>
      (shape.meaning room v).bind fun a => (accept a).toOption
  | _, .named _ _ shape, room, v => shape.meaning room v

/-- The values that the fields of a record see in members: a field may have one member
that answers to it, and members that answer to no field are of no account. -/
def Fields.meaning : {σ τ : Type} → Fields σ τ → Nat → List (String × Spelling) → Option σ
  | _, _, .nil, _, _ => some ()
  | _, _, .cons field shape rest, room, ms => do
      let a ← only field.absence.value? (shape.meaning room) (ms.filter fun m => field.answers m.1)
      let values ← rest.meaning room (ms.filter fun m => !field.answers m.1)
      return (a, values)

/-- The values that the fields of a record see in the items of an array. -/
def Fields.meaningOfItems : {σ τ : Type} → Fields σ τ → Nat → List Spelling → Option σ
  | _, _, .nil, _, [] => some ()
  | _, _, .nil, _, _ :: _ => none
  | _, _, .cons field _ rest, room, [] => do
      let a ← field.absence.default?
      let values ← rest.meaningOfItems room []
      return (a, values)
  | _, _, .cons _ shape rest, room, v :: vs => do
      let a ← shape.meaning room v
      let values ← rest.meaningOfItems room vs
      return (a, values)

end

section Slots

namespace Fields

/-- A member put into the slot of its field, if it has one. -/
def take : {σ τ : Type} → Fields σ τ → Nat → τ → String × Spelling → Option τ
  | _, _, .nil, _, slots, _ => some slots
  | _, _, .cons field shape rest, room, (slot, slots), m =>
      if field.answers m.1 then
        if slot.isSome then none else (shape.meaning room m.2).map fun a => (some a, slots)
      else (rest.take room slots m).map fun slots => (slot, slots)

/-- What stands in the slots, and for those that are empty what is there for the field. -/
def gather : {σ τ : Type} → Fields σ τ → τ → Option σ
  | _, _, .nil, _ => some ()
  | _, _, .cons field _ rest, (slot, slots) => do
      let a ← slot.or field.absence.value?
      let values ← rest.gather slots
      return (a, values)

/-- A value put into a slot that is empty. -/
def fill {α : Type} (f : Spelling → Option α) (slot : Option α) (m : String × Spelling) :
    Option (Option α) :=
  if slot.isSome then none else (f m.2).map some

/-- The slot of the first field and the slots of the others have nothing to do with each
other. -/
theorem foldlM_take_cons
    {α σ τ : Type} (field : Field α) (shape : Shape α) (rest : Fields σ τ) (room : Nat)
    (ms : List (String × Spelling)) (slot : Option α) (slots : τ) :
    ms.foldlM ((Fields.cons field shape rest).take room) (slot, slots) =
      (do
        let slot ← (ms.filter fun m => field.answers m.1).foldlM (fill (shape.meaning room)) slot
        let slots ← (ms.filter fun m => !field.answers m.1).foldlM (rest.take room) slots
        return (slot, slots)) := by
  induction ms generalizing slot slots with
  | nil => rfl
  | cons m ms ih =>
      rw [List.foldlM_cons, take]
      cases hanswers : field.answers m.1 with
      | true =>
          simp only [hanswers, if_true, List.filter_cons, Bool.not_true, Bool.false_eq_true,
            if_false, List.foldlM_cons, fill]
          cases slot with
          | some a => rfl
          | none =>
              cases shape.meaning room m.2 with
              | none => rfl
              | some a => exact ih (some a) slots
      | false =>
          simp only [hanswers, Bool.false_eq_true, if_false, List.filter_cons, Bool.not_false,
            if_true, List.foldlM_cons]
          cases htake : rest.take room slots m with
          | none =>
              cases (ms.filter fun m => field.answers m.1).foldlM
                (fill (shape.meaning room)) slot <;> rfl
          | some slots => exact ih slot slots

/-- Only one member can fill the slot. -/
theorem foldlM_fill
    {α : Type} (f : Spelling → Option α) (absent : Option α) (ms : List (String × Spelling)) :
    ((ms.foldlM (fill f) none).bind fun slot => slot.or absent) = only absent f ms := by
  match ms with
  | [] => rfl
  | [m] =>
      simp only [List.foldlM_cons, List.foldlM_nil, fill, Option.isSome_none, only]
      cases f m.2 <;> rfl
  | m :: m' :: ms =>
      simp only [List.foldlM_cons, fill, Option.isSome_none]
      cases f m.2 <;> rfl

/-- Members put into slots one after the other, and fields asked one by one. -/
theorem foldlM_take
    (room : Nat) :
    {σ τ : Type} → (fields : Fields σ τ) → (ms : List (String × Spelling)) →
      (ms.foldlM (fields.take room) fields.unfilled).bind fields.gather = fields.meaning room ms
  | _, _, .nil, ms => by
      rw [unfilled, meaning]
      induction ms with
      | nil => rfl
      | cons m ms ih => exact ih
  | _, _, .cons field shape rest, ms => by
      have hrest := foldlM_take room rest (ms.filter fun m => !field.answers m.1)
      have hfill := foldlM_fill (shape.meaning room) field.absence.value?
        (ms.filter fun m => field.answers m.1)
      rw [unfilled, foldlM_take_cons, meaning, ← hrest, ← hfill]
      cases (ms.filter fun m => field.answers m.1).foldlM (fill (shape.meaning room)) none with
      | none => rfl
      | some slot =>
          cases (ms.filter fun m => !field.answers m.1).foldlM (rest.take room) rest.unfilled with
          | none => simp
          | some slots => rfl

end Fields

end Slots

end FlagStack
