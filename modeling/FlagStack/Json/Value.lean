import FlagStack.Decimal.Binary64
import FlagStack.Table

/-!
# JSON values

A value keeps integers and floating point numbers apart, since a type of
variation may accept the one and refuse the other.  The members of an object
stand in the order in which they are written.
-/

namespace FlagStack

inductive Json where
  | null
  | bool (b : Bool)
  | integer (n : Int)
  | float (x : Binary64)
  | string (s : String)
  | array (items : List Json)
  | object (members : List (String × Json))
deriving Inhabited

namespace Json

/-- A floating point number, or `null` where the number has no JSON form. -/
def ofBinary64 (x : Binary64) : Json :=
  if x.isFinite then .float x else .null

/-- The object with the members in increasing key order, of two under one key
the last. -/
def ofMembers (members : List (String × Json)) : Json :=
  .object (members.foldl (fun l m => insertEntry m.1 m.2 l) [])

def ofTable (t : Table Json) : Json :=
  .object t.entries

def ofOption : Option Json → Json
  | none => .null
  | some v => v

/-- The members whose value is given. -/
def present (members : List (String × Option Json)) : List (String × Json) :=
  members.filterMap fun (key, value) => value.map (key, ·)

end Json
end FlagStack
