import FlagStack.Json.Skip
import FlagStack.Shape.Basic

/-!
# Reading values of a shape

A value is read from left to right, and the first fault in the text is the one
that is reported.  Two things come later than their place in the text: a field
that is missing, at the end of its object, and what `Shape.checked` refuses, at
the end of the value.

Members of an object that no field answers to are passed over.  A field given
twice is a fault of the second key, before its value is read.
-/

namespace FlagStack

open Json (Reader)

namespace Shape

/-- The name of an alternative, with what it stands for. -/
def pick {α : Type} (names : List (String × α)) (name : String) : Except Json.Error α :=
  match names.lookup name with
  | some a => .ok a
  | none => .error (.unknownVariant name (names.map (·.1)))

/-- Reads a string, or reports that something else was `expected`. -/
def readText (expected : String) : Reader String := fun s =>
  match Json.skipBlanks s with
  | [] => .error .endInValue
  | '"' :: rest => Json.readString rest
  | rest => .error (Json.mismatch expected rest)

def readCount : Reader UInt32 := fun s =>
  match Json.skipBlanks s with
  | [] => .error .endInValue
  | rest => do
      let fault := Json.mismatch "u32" rest
      if rest.head?.any fun c => c = '-' ∨ c.isDigit then
        let (n, rest) ← Json.Numeral.scan .endInValue rest
        match ← n.value with
        | .integer i =>
            if 0 ≤ i ∧ i < twoPow 32 then return (UInt32.ofNat i.toNat, rest)
            else .error (.wrongRange i "u32")
        | _ => .error fault
      else .error fault

/-- `null`, or what another reader reads. -/
def readOption {α : Type} (reader : Reader α) : Reader (Option α) := fun s =>
  match Json.skipBlanks s with
  | 'n' :: rest => do return (none, ← Json.literalRest ['u', 'l', 'l'] rest)
  | rest => do
      let (a, rest) ← reader rest
      return (some a, rest)

/-- Only `null`. -/
def readUnit : Reader Unit := fun s =>
  match Json.skipBlanks s with
  | [] => .error .endInValue
  | 'n' :: rest => do return ((), ← Json.literalRest ['u', 'l', 'l'] rest)
  | rest => .error (Json.mismatch "unit" rest)

/-- The end of an object that holds one alternative. -/
def closeAlternative : Reader Unit := fun s =>
  match Json.skipBlanks s with
  | [] => .error .endInObject
  | '\x7d' :: rest => .ok ((), rest)
  | _ => .error .expectedValue

/-- The key of an object that holds one alternative, behind the brace. -/
def soleKey : Reader String := fun s =>
  match Json.skipBlanks s with
  | [] => .error .endInObject
  | '"' :: rest => Json.readString rest
  | '\x7d' :: _ => .error .expectedValue
  | _ => .error .expectedKey

/-- The key of an object that holds one alternative, and its colon. -/
def alternative {α : Type} (names : List (String × α)) : Reader α := do
  let a ← pick names (← soleKey)
  Json.colon
  return a

/-- One of the alternatives: a bare string, or an object with one member. -/
def readAlternative {α : Type} (bare tagged : Reader α) : Reader α := fun s =>
  match Json.skipBlanks s with
  | [] => .error .endInValue
  | '\x7b' :: rest => tagged rest
  | '"' :: rest => bare ('"' :: rest)
  | _ => .error .expectedValue

def readChoice {α : Type} (names : List (String × α)) (room : Nat) : Reader α :=
  readAlternative
    (do pick names (← readText "a string"))
    (Json.nested room fun _ => do
      let a ← alternative names
      readUnit
      closeAlternative
      return a)

/-- A member of a table of strings, behind its key. -/
def readEntry (key : String) (t : Table String) : Reader (Table String) := do
  Json.colon
  return t.put key (← readText "a string")

/-- A container behind its opening bracket; the shape knows only this kind. -/
def readContainer {α : Type} (bracket : Char) (expected : String) (room : Nat)
    (inside : Nat → Reader α) : Reader α := fun s =>
  match Json.skipBlanks s with
  | [] => .error .endInValue
  | c :: rest =>
      if c = bracket then Json.nested room inside rest
      else .error (Json.mismatch expected (c :: rest))

end Shape

mutual

/-- Reads a value.  `bound` is not less than the number of characters, and
`room` is the number of containers that may still be opened. -/
def Shape.read (bound : Nat) : {α : Type} → Shape α → Nat → Reader α
  | _, .text expected _ accept _, _ => do
      match accept (← Shape.readText expected) with
      | .ok a => return a
      | .error reason => throw (.refused reason)
  | _, .count, _ => Shape.readCount
  | _, .anything, room => Json.readValue bound room
  | _, .choice names _, room => Shape.readChoice names room
  | _, .option shape, room => Shape.readOption (shape.read bound room)
  | _, .list shape, room =>
      Shape.readContainer '[' "a sequence" room fun room =>
        Json.items (shape.read bound room) bound []
  | _, .textTable, room =>
      Shape.readContainer '\x7b' "a map" room fun _ =>
        Json.members Shape.readEntry bound true Table.empty
  | _, .either left leftShape right rightShape, room =>
      let names := [(left.name, true), (right.name, false)]
      Shape.readAlternative
        (do
          let _ ← Shape.pick names (← Shape.readText "a string")
          throw (.wrongType .unitVariant "newtype variant"))
        (Json.nested room fun room => do
          let a ←
            if ← Shape.alternative names then .inl <$> leftShape.read bound room
            else .inr <$> rightShape.read bound room
          Shape.closeAlternative
          return a)
  | _, .record name fields build _, room => fun s =>
      match Json.skipBlanks s with
      | '[' :: rest =>
          Json.nested room (fun room => do
            let values ← fields.readItems bound room name fields.count 0
            Json.closeList
            return build values) rest
      | '\x7b' :: rest =>
          Json.nested room (fun room => do
            let slots ← Json.members (fields.readMember bound room) bound true fields.unfilled
            return build (← fields.collect slots)) rest
      | [] => .error .endInValue
      | rest => .error (Json.mismatch s!"struct {name}" rest)
  | _, .checked shape accept _, room => do
      match accept (← shape.read bound room) with
      | .ok b => return b
      | .error reason => throw (.refused reason)
  | _, .named _ _ shape, room => shape.read bound room

/-- Reads a member of a record's object, behind its key, into its slot. -/
def Fields.readMember (bound room : Nat) :
    {σ τ : Type} → Fields σ τ → String → τ → Reader τ
  | _, _, .nil, _, slots => do
      Json.colon
      Json.skipValue bound
      return slots
  | _, _, .cons field shape rest, key, (slot, slots) => do
      if field.answers key then
        if slot.isSome then throw (.duplicateField field.name)
        Json.colon
        return (some (← shape.read bound room), slots)
      else return (slot, ← rest.readMember bound room key slots)

/-- The values of a record's object, those of absent fields filled in. -/
def Fields.collect : {σ τ : Type} → Fields σ τ → τ → Reader σ
  | _, _, .nil, _ => return ()
  | _, _, .cons field _ rest, (slot, slots) => do
      let a ←
        match slot, field.absence with
        | some a, _ => pure a
        | none, .omitted a => pure a
        | none, .defaulted a => pure a
        | none, .refused => throw (.missingField field.name)
      return (a, ← rest.collect slots)

/-- Reads a record's array, of which `index` fields have been read. -/
def Fields.readItems (bound room : Nat) (name : String) (total : Nat) :
    {σ τ : Type} → Fields σ τ → Nat → Reader σ
  | _, _, .nil, _ => return ()
  | _, _, .cons field shape rest, index => do
      let a ←
        if ← Json.nextItem (index == 0) then shape.read bound room
        else
          match field.absence with
          | .defaulted a => pure a
          | _ => throw (.wrongLength index name total)
      return (a, ← rest.readItems bound room name total (index + 1))

end

/-- The value that a text holds. -/
def Shape.decode {α : Type} (shape : Shape α) (text : String) : Except Json.Error α :=
  Json.readAll (fun bound => shape.read bound Json.greatestDepth) text

end FlagStack
