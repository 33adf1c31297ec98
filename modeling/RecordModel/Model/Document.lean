/-
**Model documents.**

A model is a list of declared records with distinct names.  A model document writes it as JSON: an
object whose member `records` lists the records, each with its fields.  A type is written as its
name or as an object with one member, and an enumeration as an object with its name and symbols.

Defaults may name any record of the document, so they are converted after all records are known,
those of one record after those of the records before it.

Main definitions:

* `Model` — the models;
* `Document.typeOf` — the type that is written;
* `Document.fieldOf`, `Document.recordOf` — fields and records without their defaults;
* `Model.ofJson`, `Model.parse` — the model that a document holds;
* `Model.valueFor` — a value that is written for a field.
-/

import RecordModel.Json.Reader
import RecordModel.Model.Conversion
import RecordModel.Registry

set_option relaxedAutoImplicit false
set_option autoImplicit false

namespace RecordModel

/-- Declared records. -/
structure Model where
  records : List DeclaredRecord

namespace Document

/-- An error at a place of a document. -/
def fail {α : Type} (place : Place) (fault : ModelFault) : Except Error α :=
  .error (.model place fault)

/-! ### Members of objects -/

/-- A text that has to be there and must not be empty. -/
def requiredString (members : List (String × Json)) (key : String) (place : Place) :
    Except Error String :=
  match Keyed.get? key members with
  | none => fail place (.missingKey key)
  | some (.string s) => if s.isEmpty then fail place (.emptyString key) else .ok s
  | some _ => fail place (.notString key)

/-- A text that may be missing or null. -/
def optionalString (members : List (String × Json)) (key : String) (place : Place) :
    Except Error (Option String) :=
  match Keyed.get? key members with
  | none => .ok none
  | some .null => .ok none
  | some (.string s) => .ok (some s)
  | some _ => fail place (.notString key)

/-- A whole number of 32 bits that may be missing or null. -/
def optionalWord (members : List (String × Json)) (key : String) (place : Place) :
    Except Error (Option Nat) :=
  match Keyed.get? key members with
  | none => .ok none
  | some .null => .ok none
  | some j =>
      if j.isNumber then
        match j.toWord32? with
        | some n => .ok (some n)
        | none => fail place (.notWord32 key)
      else fail place (.notNumber key)

/-- The texts of a list. -/
def stringsOf? : List Json → Option (List String)
  | [] => some []
  | .string s :: rest => (stringsOf? rest).map (s :: ·)
  | _ :: _ => none

/-- A list of texts that may be missing or null. -/
def stringList (members : List (String × Json)) (key : String) (place : Place) :
    Except Error (List String) :=
  match Keyed.get? key members with
  | none => .ok []
  | some .null => .ok []
  | some (.array items) =>
      match stringsOf? items with
      | some texts => .ok texts
      | none => fail place (.notOnlyStrings key)
  | some _ => fail place (.notStringArray key)

/-! ### Types -/

/-- The type with the given name: that of a record if it is no other one. -/
def typeNamed : String → DeclaredType
  | "boolean" => .boolean
  | "int32" => .int32
  | "int64" => .int64
  | "float32" => .float32
  | "float64" => .float64
  | "bytes" => .bytes
  | "string" => .string
  | "null" => .null
  | "date" => .date
  | "time-millis" => .timeMillis
  | "time-micros" => .timeMicros
  | "timestamp-millis" => .timestampMillis
  | "timestamp-micros" => .timestampMicros
  | "uuid" => .uuid
  | "decimal" => .decimal
  | "fixed" => .fixed
  | "self" => .self
  | name => .record name

/-- An enumeration with the given name. -/
def enumOf (name : Json) (members : List (String × Json)) (place : Place) :
    Except Error DeclaredType :=
  match name with
  | .string name => do
      let symbols ← stringList members "symbols" place
      return .enum name symbols (← optionalString members "default" place)
  | _ => fail place .enumNameNotString

mutual

/-- The type that is written. -/
def typeOf (place : Place) : Json → Except Error DeclaredType
  | .string name => if name.isEmpty then fail place .emptyTypeName else .ok (typeNamed name)
  | .object members =>
      match Keyed.get? "enum" members with
      | some name => enumOf name members place
      | none =>
          match members with
          | [(key, inner)] =>
              if key = "array" then (typeOf place inner).map .list
              else if key = "tuple" then (typeOf place inner).map .tuple
              else if key = "map" then (typeOf place inner).map .dict
              else if key = "optional" then (typeOf place inner).map .optional
              else if key = "union" then
                match inner with
                | .array items => (typesOf place items).map .union
                | _ => fail place .unionNotArray
              else fail place (.unknownComposite key)
          | _ => fail place .compositeKeys
  | j => fail place (.notType j)

/-- The types that are written. -/
def typesOf (place : Place) : List Json → Except Error (List DeclaredType)
  | [] => .ok []
  | j :: rest => do
      let t ← typeOf place j
      return t :: (← typesOf place rest)

end

/-! ### Fields and records -/

/-- A field without its default, and the default as it is written. -/
structure WrittenField where
  declaration : DeclaredField
  default : Option Json

/-- A record whose fields are without their defaults, and the defaults as they are written. -/
structure WrittenRecord where
  declaration : DeclaredRecord
  defaults : List (Option Json)

/-- The field at the given position of a record. -/
def fieldOf (record : String) (index : Nat) : Json → Except Error WrittenField
  | .object members => do
      let name ← requiredString members "name" (.fieldAt record index)
      let place := Place.field record index name
      let type ← match Keyed.get? "type" members with
        | some j => typeOf place j
        | none => fail place (.missingKey "type")
      let precision ← optionalWord members "precision" place
      let scale ← optionalWord members "scale" place
      let size ← optionalWord members "size" place
      let fixedName ← optionalString members "fixed_name" place
      let doc ← optionalString members "doc" place
      let aliases ← stringList members "aliases" place
      return ⟨⟨name, type, none, ⟨precision, scale, size, fixedName, doc, aliases⟩⟩,
        Keyed.get? "default" members⟩
  | _ => fail (.fieldAt record index) .fieldNotObject

/-- The fields of a record from the given position on. -/
def fieldsOf (record : String) (index : Nat) : List Json → Except Error (List WrittenField)
  | [] => .ok []
  | j :: rest => do
      let field ← fieldOf record index j
      return field :: (← fieldsOf record (index + 1) rest)

/-- The record at the given position of a document. -/
def recordOf (index : Nat) : Json → Except Error WrittenRecord
  | .object members => do
      let name ← requiredString members "name" (.recordAt index)
      let place := Place.record name
      let items ← match Keyed.get? "fields" members with
        | some (.array items) => .ok items
        | some _ => fail place (.notArray "fields")
        | none => fail place (.missingKey "fields")
      let space ← optionalString members "namespace" place
      let doc ← optionalString members "doc" place
      let aliases ← stringList members "aliases" place
      let fields ← fieldsOf name 0 items
      return ⟨⟨name, space, doc, aliases, fields.map (·.declaration)⟩, fields.map (·.default)⟩
  | _ => fail (.recordAt index) .recordNotObject

/-- The records of a document from the given position on, after records with the names `seen`. -/
def recordsOf (seen : List String) (index : Nat) : List Json → Except Error (List WrittenRecord)
  | [] => .ok []
  | j :: rest => do
      let record ← recordOf index j
      if record.declaration.name ∈ seen then
        fail (.record record.declaration.name) .repeatedRecord
      else
        return record :: (← recordsOf (record.declaration.name :: seen) (index + 1) rest)

/-! ### Defaults -/

/-- The default that is written for a field. -/
def defaultOf (records : List DeclaredRecord) (record : String) (field : DeclaredField)
    (written : Option Json) : Except Failure (Option DeclaredDefault) :=
  match written with
  | none => .ok none
  | some .null => .ok (some .absent)
  | some raw =>
      (Conversion.convert records record raw field.type (.value record field.name)).map
        fun v => some (.value v)

/-- Fields with the defaults that are written for them. -/
def withDefaults (records : List DeclaredRecord) (record : String) :
    List DeclaredField → List (Option Json) → Except Failure (List DeclaredField)
  | field :: fields, written :: rest => do
      let default ← defaultOf records record field written
      return { field with default } :: (← withDefaults records record fields rest)
  | fields, _ => .ok fields

/-- Records with the defaults that are written for their fields. -/
def declarationsOf (records : List DeclaredRecord) :
    List WrittenRecord → Except Failure (List DeclaredRecord)
  | [] => .ok []
  | r :: rest => do
      let fields ← withDefaults records r.declaration.name r.declaration.fields r.defaults
      return { r.declaration with fields } :: (← declarationsOf records rest)

/-- What can fail only with an error. -/
def lift {α : Type} (result : Except Error α) : Except Failure α := result.mapError .error

/-- The written records of a document. -/
def contents : Json → Except Error (List WrittenRecord)
  | .object members =>
      match Keyed.get? "records" members with
      | some (.array items) => recordsOf [] 0 items
      | some _ => fail .document (.notArray "records")
      | none => fail .document (.missingKey "records")
  | _ => fail .document .documentNotObject

end Document

/-! ### Models -/

namespace Model

/-- The model that a document holds. -/
def ofJson (document : Json) : Except Failure Model := do
  let records ← Document.lift (Document.contents document)
  return ⟨← Document.declarationsOf (records.map (·.declaration)) records⟩

/-- The model that a text holds. -/
def parse (text : String) : Except Failure Model :=
  match Json.parse text with
  | some document => ofJson document
  | none => .error (.error (.model .document .notJson))

/-- The names of the records, in order. -/
def names (m : Model) : List String := m.records.map (·.name)

/-- The declaration of a record. -/
def record? (m : Model) (name : String) : Option DeclaredRecord :=
  m.records.find? (·.name = name)

/-- The model as a source of declarations. -/
def provider (m : Model) : Provider := Provider.ofDeclarations m.records

/-- The value that is written for a field of a record. -/
def valueFor (m : Model) (record field : String) (raw : Json) : Except Failure Value :=
  match m.record? record with
  | none => .error (.error (.unknownRecord record))
  | some owner =>
      let place := Place.value record field
      match owner.field? field with
      | none => Conversion.fail place .noSuchField
      | some declaration =>
          match raw with
          | .null => .ok .null
          | raw => Conversion.convert m.records record raw declaration.type place

/-- Keeps the records of a model in a registry. -/
def declareAll (m : Model) : RegistryM Unit := Registry.declareAll m.records

end Model

end RecordModel
