/-
**Schemas.**

A schema is a tree: every named type stands in it in full where it comes first, and everywhere else
there is a reference to it by its full name.  A schema is written as JSON: a primitive type and a
reference as a text, a union as an array and everything else as an object.

Main definitions:

* `FieldSchema`, `RecordSchema`, `Schema` — the trees;
* `Schema.toJson` — a schema as it is written.

Main results:

* `Schema.toJson_union` — a union is the array of its members.
-/

import RecordModel.Descriptor
import RecordModel.Json.Basic

set_option relaxedAutoImplicit false
set_option autoImplicit false

namespace RecordModel

/-- A field whose type is an `α`. -/
structure FieldSchema (α : Type) where
  name : String
  type : α
  /-- The default as it is written. -/
  default : Option Json
  doc : Option String
  aliases : List String

/-- A record whose fields have types in `α`. -/
structure RecordSchema (α : Type) where
  name : String
  space : Option String
  doc : Option String
  aliases : List String
  /-- The fields in the order of declaration. -/
  fields : List (FieldSchema α)

/-- The first field with the name. -/
def RecordSchema.field? {α : Type} (r : RecordSchema α) (name : String) : Option (FieldSchema α) :=
  r.fields.find? (·.name = name)

/-- A schema. -/
inductive Schema where
  | record (r : RecordSchema Schema)
  | enum (type : Enumeration)
  | fixed (type : FixedBytes)
  | array (items : Schema)
  | map (values : Schema)
  | union (members : List Schema)
  | logical (kind : Logical)
  | primitive (kind : Primitive)
  /-- A named type that stands in full before it, by its full name. -/
  | reference (fullName : String)

namespace Schema

/-- The record, if the schema is one. -/
def toRecord? : Schema → Option (RecordSchema Schema)
  | .record r => some r
  | _ => none

/-- The members, if the schema is a union. -/
def toUnion? : Schema → Option (List Schema)
  | .union members => some members
  | _ => none

/-! ### Schemas as JSON -/

/-- A list of texts. -/
def strings (texts : List String) : Json := .array (texts.map .string)

/-- A member that is there when a value is. -/
def optionalMember (key : String) (value : Option Json) : List (String × Json) :=
  match value with
  | some j => [(key, j)]
  | none => []

/-- The other names of a type or a field, which are there when there are any. -/
def aliasMember (aliases : List String) : List (String × Json) :=
  if aliases.isEmpty then [] else [("aliases", strings aliases)]

/-- A logical type as it is written: the carrier, the name, and the parameters of a decimal. -/
def logicalToJson (kind : Logical) : Json :=
  .object <|
    [("type", .string kind.carrier.schemaName), ("logicalType", .string kind.name)] ++
    match kind with
    | .decimal precision scale => [("precision", .integer precision), ("scale", .integer scale)]
    | _ => []

mutual

/-- A schema as it is written. -/
def toJson : Schema → Json
  | .record ⟨name, space, doc, aliases, fields⟩ =>
      .object <|
        [("type", .string "record"), ("name", .string name)] ++
        optionalMember "namespace" (space.map .string) ++
        optionalMember "doc" (doc.map .string) ++
        aliasMember aliases ++
        [("fields", .array (fieldsToJson fields))]
  | .enum type =>
      .object <|
        [("type", .string "enum"), ("name", .string type.name),
          ("symbols", strings type.symbols)] ++
        optionalMember "default" (type.default.map .string)
  | .fixed type =>
      .object [("type", .string "fixed"), ("name", .string type.name), ("size", .integer type.size)]
  | .array items => .object [("type", .string "array"), ("items", toJson items)]
  | .map values => .object [("type", .string "map"), ("values", toJson values)]
  | .union members => .array (membersToJson members)
  | .logical kind => logicalToJson kind
  | .primitive kind => .string kind.schemaName
  | .reference fullName => .string fullName

/-- The members of a union as they are written. -/
def membersToJson : List Schema → List Json
  | [] => []
  | m :: rest => toJson m :: membersToJson rest

/-- The fields of a record as they are written. -/
def fieldsToJson : List (FieldSchema Schema) → List Json
  | [] => []
  | ⟨name, type, default, doc, aliases⟩ :: rest =>
      .object
        ([("name", .string name), ("type", toJson type)] ++
          optionalMember "default" default ++
          optionalMember "doc" (doc.map .string) ++
          aliasMember aliases) ::
      fieldsToJson rest

end

theorem membersToJson_eq_map (members : List Schema) :
    membersToJson members = members.map toJson := by
  induction members with
  | nil => simp [membersToJson]
  | cons m rest ih => simp [membersToJson, ih]

theorem toJson_union (members : List Schema) :
    toJson (.union members) = .array (members.map toJson) := by
  rw [toJson, membersToJson_eq_map]

end Schema

end RecordModel
