import FlagStack.Shape.Writer

/-!
# Schemas of shapes

A schema in the JSON Schema language describes the values of a shape.  Named
shapes are defined once and referred to by name; a field shows its description
and its default.  Object members stand in increasing key order throughout.
-/

namespace FlagStack
namespace Schema

/-- The members of a schema that is an object. -/
abbrev Members : Type := List (String × Json)

/-- The identifier of a draft of the language. -/
def draft (edition : String) : String :=
  "https:" ++ "//json-schema.org/draft/" ++ edition ++ "/schema"

/-- The schema of values of one type. -/
def ofType (name : String) : Json :=
  .object [("type", .string name)]

def addMember (schema : Json) (key : String) (value : Json) : Json :=
  match schema with
  | .object members => .object (insertEntry key value members)
  | other => other

def describe (schema : Json) : Option String → Json
  | some s => addMember schema "description" (.string s)
  | none => schema

/-- The schema of the values of another one, or `null`. -/
def orNull (schema : Json) : Json :=
  match schema with
  | .object members =>
      match members.lookup "type" with
      | some name => addMember schema "type" (.array [name, .string "null"])
      | none => .object [("anyOf", .array [schema, ofType "null"])]
  | other => other

/-- The schema of an object with exactly one member. -/
def single (name : String) (description : Option String) (schema : Json) : Json :=
  describe
    (.object
      [("additionalProperties", .bool false),
       ("properties", .object [(name, schema)]),
       ("required", .array [.string name]),
       ("type", .string "object")])
    description

end Schema

mutual

/-- The schema of a shape, named shapes only referred to. -/
def Shape.schema : {α : Type} → Shape α → Json
  | _, .text _ none _ _ => Schema.ofType "string"
  | _, .text _ (some format) _ _ =>
      Schema.addMember (Schema.ofType "string") "format" (.string format)
  | _, .count =>
      .object
        [("format", .string "uint32"), ("minimum", .integer 0), ("type", .string "integer")]
  | _, .anything => .bool true
  | _, .choice names _ =>
      .object
        [("enum", .array (names.map fun n => .string n.1)), ("type", .string "string")]
  | _, .option shape => Schema.orNull shape.schema
  | _, .list shape => .object [("items", shape.schema), ("type", .string "array")]
  | _, .textTable =>
      .object
        [("additionalProperties", Schema.ofType "string"), ("type", .string "object")]
  | _, .either left leftShape right rightShape =>
      .object
        [("oneOf", .array
          [Schema.single left.name left.description leftShape.schema,
           Schema.single right.name right.description rightShape.schema])]
  | _, .record _ fields _ _ =>
      let required := fields.requiredNames
      .object (Json.present
        [("properties", some (Json.ofMembers fields.schemas)),
         ("required",
           if required.isEmpty then none else some (.array (required.map .string))),
         ("type", some (.string "object"))])
  | _, .checked shape _ _ => shape.schema
  | _, .named name _ _ => .object [("$ref", .string ("#/$defs/" ++ name))]

/-- The schemas of the fields of a record. -/
def Fields.schemas : {σ τ : Type} → Fields σ τ → Schema.Members
  | _, _, .nil => []
  | _, _, .cons field shape rest =>
      let schema := Schema.describe shape.schema field.description
      let schema :=
        match field.absence with
        | .defaulted a => Schema.addMember schema "default" (shape.write a)
        | _ => schema
      (field.name, schema) :: rest.schemas

/-- The names of the fields that have to be given. -/
def Fields.requiredNames : {σ τ : Type} → Fields σ τ → List String
  | _, _, .nil => []
  | _, _, .cons field _ rest =>
      match field.absence with
      | .refused => field.name :: rest.requiredNames
      | _ => rest.requiredNames

end

mutual

/-- The named shapes inside of a shape, with their schemas. -/
def Shape.definitions : {α : Type} → Shape α → Schema.Members
  | _, .option shape => shape.definitions
  | _, .list shape => shape.definitions
  | _, .either _ left _ right => left.definitions ++ right.definitions
  | _, .record _ fields _ _ => fields.definitions
  | _, .checked shape _ _ => shape.definitions
  | _, .named name description shape =>
      (name, Schema.describe shape.schema description) :: shape.definitions
  | _, _ => []

def Fields.definitions : {σ τ : Type} → Fields σ τ → Schema.Members
  | _, _, .nil => []
  | _, _, .cons _ shape rest => shape.definitions ++ rest.definitions

end

/-- The schema document of a named shape. -/
def Shape.schemaDocument {α : Type} : Shape α → Json
  | .named name description shape =>
      let schema := Schema.describe shape.schema description
      let schema := Schema.addMember schema "$schema" (.string (Schema.draft "2020-12"))
      let schema := Schema.addMember schema "title" (.string name)
      Schema.addMember schema "$defs" (Json.ofMembers shape.definitions)
  | shape => shape.schema

end FlagStack
