import FlagStack.Json.Value

/-!
# Looking into templates

What stands under a key of an object, and what stands under a key anywhere in a
value.  With this the statements about templates are about the text that is
written, and not about the stack that it comes from.

**Results.**
* `lookup_present_cons`, `attributes_present_cons`: looking into an object of which
  some members may be absent.
-/

namespace FlagStack
namespace Json

/-- The value under a key of an object. -/
def member? (key : String) : Json → Option Json
  | .object members => members.lookup key
  | _ => none

/-- The text under a key of an object. -/
def textAt? (key : String) (v : Json) : Option String :=
  match v.member? key with
  | some (.string s) => some s
  | _ => none

/-- The items of the array under a key of an object, none if there is no array. -/
def itemsAt (key : String) (v : Json) : List Json :=
  match v.member? key with
  | some (.array items) => items
  | _ => []

mutual

/-- The values under a key, at any depth. -/
def valuesAt (key : String) : Json → List Json
  | .array items => valuesAtItems key items
  | .object members => valuesAtMembers key members
  | _ => []

def valuesAtItems (key : String) : List Json → List Json
  | [] => []
  | v :: rest => v.valuesAt key ++ valuesAtItems key rest

def valuesAtMembers (key : String) : List (String × Json) → List Json
  | [] => []
  | (k, v) :: rest =>
      (if k = key then [v] else []) ++ v.valuesAt key ++ valuesAtMembers key rest

end

/-- The record of a template under a logical id. -/
def record? (id : String) (template : Json) : Option Json :=
  (template.member? "Resources").bind (member? id)

/-- The attributes of resources that a value refers to, at any depth. -/
def attributes (v : Json) : List Json :=
  v.valuesAt "Fn::GetAtt"

section Members

variable {key : String}

@[simp] theorem member?_object
    (members : List (String × Json)) :
    (object members).member? key = members.lookup key := by
  rfl

/-- Members that are not given are passed over. -/
@[simp] theorem lookup_present_cons
    (k : String) (o : Option Json) (rest : List (String × Option Json)) :
    (present ((k, o) :: rest)).lookup key =
      if key = k then o.or ((present rest).lookup key) else (present rest).lookup key := by
  cases o with
  | none => simp [present]
  | some v =>
      by_cases h : key = k
      · simp [present, h]
      · have hne : (key == k) = false := beq_eq_false_iff_ne.2 h
        simp [present, h, hne, List.lookup_cons]

@[simp] theorem lookup_present_nil :
    (present []).lookup key = none := by
  rfl

@[simp] theorem member?_ofTable
    (t : Table Json) :
    (ofTable t).member? key = t.get? key := by
  rfl

theorem textAt?_eq_some_iff
    {v : Json} {s : String} :
    v.textAt? key = some s ↔ v.member? key = some (.string s) := by
  rw [textAt?]
  cases v.member? key with
  | none => simp
  | some w => cases w <;> simp

end Members

section Depth

variable {key : String}

theorem valuesAtItems_eq
    (items : List Json) :
    valuesAtItems key items = items.flatMap (valuesAt key) := by
  induction items with
  | nil => rfl
  | cons v rest ih => rw [valuesAtItems, ih, List.flatMap_cons]

theorem valuesAtMembers_eq
    (members : List (String × Json)) :
    valuesAtMembers key members =
      members.flatMap fun m => (if m.1 = key then [m.2] else []) ++ m.2.valuesAt key := by
  induction members with
  | nil => rfl
  | cons m rest ih => rw [valuesAtMembers, ih, List.flatMap_cons]

end Depth

section Attributes

variable {α : Type}

@[simp] theorem attributes_integer
    (n : Int) :
    (integer n).attributes = [] := by
  rfl

@[simp] theorem attributes_string
    (s : String) :
    (string s).attributes = [] := by
  rfl

@[simp] theorem attributes_array
    (items : List Json) :
    (array items).attributes = items.flatMap attributes := by
  rw [attributes, valuesAt, valuesAtItems_eq]
  rfl

theorem attributes_object
    (members : List (String × Json)) :
    (object members).attributes =
      members.flatMap fun m =>
        (if m.1 = "Fn::GetAtt" then [m.2] else []) ++ m.2.attributes := by
  rw [attributes, valuesAt, valuesAtMembers_eq]
  rfl

@[simp] theorem attributes_object_nil :
    (object []).attributes = [] := by
  rfl

/-- An object with other keys has the attributes of its members. -/
@[simp] theorem attributes_object_cons
    {k : String} (hk : k ≠ "Fn::GetAtt") (v : Json) (rest : List (String × Json)) :
    (object ((k, v) :: rest)).attributes = v.attributes ++ (object rest).attributes := by
  simp [attributes_object, hk]

/-- The attributes of what may be given. -/
def attributesOf (o : Option Json) : List Json :=
  o.toList.flatMap attributes

@[simp] theorem attributesOf_none :
    attributesOf none = [] := by
  rfl

@[simp] theorem attributesOf_some
    (v : Json) :
    attributesOf (some v) = v.attributes := by
  simp [attributesOf]

@[simp] theorem attributesOf_map
    (f : α → Json) (o : Option α) :
    attributesOf (o.map f) = o.toList.flatMap fun a => (f a).attributes := by
  cases o <;> simp [attributesOf]

@[simp] theorem attributes_present_nil :
    (object (present [])).attributes = [] := by
  rfl

@[simp] theorem attributes_present_cons
    {k : String} (hk : k ≠ "Fn::GetAtt") (o : Option Json)
    (rest : List (String × Option Json)) :
    (object (present ((k, o) :: rest))).attributes =
      attributesOf o ++ (object (present rest)).attributes := by
  cases o with
  | none => simp [present]
  | some v => simp [present, hk]

/-- Nothing comes of items without attributes. -/
@[simp] theorem flatMap_nil_attributes
    (l : List α) :
    (l.flatMap fun _ => ([] : List Json)) = [] := by
  simp

end Attributes
end Json
end FlagStack
