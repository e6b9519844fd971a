import FlagStack.Shape.Writer

/-!
# Variations

A variation is one of the values a feature can take, with a name that may be
missing.  Its value is of one of four types.

In a config file the type is written beside the value.  A variation so written
is accepted when the value fits the type: a boolean, a string, an integer of 64
bits, or any number.
-/

namespace FlagStack

inductive ValueType where
  | boolean
  | double
  | long
  | string
deriving DecidableEq

namespace ValueType

def label : ValueType → String
  | .boolean => "BOOLEAN"
  | .double => "DOUBLE"
  | .long => "LONG"
  | .string => "STRING"

def all : List ValueType :=
  [.boolean, .double, .long, .string]

/-- The type with a label. -/
def ofLabel? (label : String) : Option ValueType :=
  all.find? fun t => t.label == label

def shape : Shape ValueType :=
  .named "VariationValueType" (some "The type of value a variation carries.") <|
    .choice (all.map fun t => (t.label, t)) label

end ValueType

/-- A value with its type. -/
inductive Value where
  | boolean (b : Bool)
  | double (x : Binary64)
  | long (n : Int64)
  | string (s : String)
deriving DecidableEq

namespace Value

def valueType : Value → ValueType
  | .boolean _ => .boolean
  | .double _ => .double
  | .long _ => .long
  | .string _ => .string

/-- A number that has no JSON form. -/
def isNonFinite : Value → Bool
  | .double x => !x.isFinite
  | _ => false

def json : Value → Json
  | .boolean b => .bool b
  | .double x => .ofBinary64 x
  | .long n => .integer n.toInt
  | .string s => .string s

/-- The value of a given type that a JSON value stands for. -/
def ofJson? : ValueType → Json → Option Value
  | .boolean, .bool b => some (.boolean b)
  | .double, .integer n => some (.double (Binary64.ofInt n))
  | .double, .float x => some (.double x)
  | .long, .integer n =>
      if -(twoPow 63 : Int) ≤ n ∧ n < twoPow 63 then some (.long (Int64.ofInt n)) else none
  | .string, .string s => some (.string s)
  | _, _ => none

end Value

structure Variation where
  label : Option String
  value : Value
deriving DecidableEq

/-- A variation as a config file has it: a type, and a value that may not fit. -/
structure UntypedVariation where
  label : Option String
  valueType : ValueType
  value : Json

namespace UntypedVariation

def shape : Shape UntypedVariation :=
  .record "RawVariation"
    (.cons (.optional "name") (.option .string) <|
     .cons (.required "valueType") ValueType.shape <|
     .cons (.required "value") .anything <|
     .nil)
    (fun (label, valueType, value, ()) => ⟨label, valueType, value⟩)
    (fun v => (v.label, v.valueType, v.value, ()))

end UntypedVariation

namespace Variation

/-- The name, empty for a variation without one. -/
def name (v : Variation) : String :=
  v.label.getD ""

def valueType (v : Variation) : ValueType :=
  v.value.valueType

/-- Why a value does not fit its type. -/
def mismatch (v : UntypedVariation) : String :=
  let name := v.label.getD ""
  s!"variation '{name}' has valueType {v.valueType.label} but value " ++ v.value.compact

def ofUntyped (v : UntypedVariation) : Except String Variation :=
  match Value.ofJson? v.valueType v.value with
  | some value => .ok ⟨v.label, value⟩
  | none => .error (mismatch v)

def toUntyped (v : Variation) : UntypedVariation :=
  ⟨v.label, v.valueType, v.value.json⟩

def shape : Shape Variation :=
  .named "Variation" (some "Wire form of a [`Variation`] in config files.") <|
    .checked UntypedVariation.shape ofUntyped toUntyped

end Variation
end FlagStack
