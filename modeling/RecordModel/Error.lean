/-
**Errors.**

An error states its cause and where it lies: a record and perhaps a field, or a place in a model
document.  The message is made from the cause in one function for each kind of error.

A few computations are written for a range that their input can leave; they then break down and
give no error at all (`Breakdown`).

Main definitions:

* `Place` — places in a model document;
* `ConfigurationFault`, `SchemaFault`, `GenerationFault`, `ModelFault`, `ReadFault` — causes;
* `Error`, `Error.message` — errors;
* `Breakdown`, `Failure` — why there is no answer.
-/

import RecordModel.Declaration.Basic
import RecordModel.Record
import RecordModel.Generator.Settings
import RecordModel.Json.Writer

set_option relaxedAutoImplicit false
set_option autoImplicit false

namespace RecordModel

/-- A name between single quotes. -/
def named (name : String) : String := "'" ++ name ++ "'"

/-! ### Places in a model document -/

/-- A place in a model document. -/
inductive Place where
  | document
  /-- A record by its position, while its name is not known. -/
  | recordAt (index : Nat)
  | record (name : String)
  /-- A field by its position, while its name is not known. -/
  | fieldAt (record : String) (index : Nat)
  | field (record : String) (index : Nat) (name : String)
  /-- The value written for a field. -/
  | value (record field : String)
  | item (within : Place) (index : Nat)
  | member (within : Place) (key : String)

/-- The text of a place. -/
def Place.text : Place → String
  | .document => "document"
  | .recordAt index => "records[" ++ toString index ++ "]"
  | .record name => name
  | .fieldAt owner index => owner ++ ".fields[" ++ toString index ++ "]"
  | .field owner index name => owner ++ ".fields[" ++ toString index ++ "](" ++ name ++ ")"
  | .value owner name => owner ++ "." ++ name
  | .item within index => within.text ++ "[" ++ toString index ++ "]"
  | .member within key => within.text ++ "." ++ key

/-! ### Causes -/

/-- What is wrong with a declaration. -/
inductive ConfigurationFault where
  | emptyRecordName
  | duplicateField
  | noPrecision
  | noScale
  | decimalNotPositive (precision scale : Nat)
  | scaleExceedsPrecision (precision scale : Nat)
  | precisionTooGreat (precision : Nat)
  | fixedSizeZero
  | noFixedSize
  | noSymbols (enum : String)
  | repeatedSymbol (enum symbol : String)
  | unknownDefaultSymbol (enum symbol : String)
  | emptyUnion
  | repeatedMember (identity : String)
  | emptyReference
  | defaultNotSymbol (enum symbol : String)
  /-- A provider answered with a declaration of another name. -/
  | otherName (name : String)

/-- The greatest precision of a decimal. -/
def mostPrecision : Nat := 38

/-- The message of a fault in a declaration. -/
def ConfigurationFault.message : ConfigurationFault → String
  | .emptyRecordName => "record name must not be empty"
  | .duplicateField => "duplicate field name"
  | .noPrecision => "decimal requires explicit precision (max digits)"
  | .noScale => "decimal requires explicit scale (decimal places)"
  | .decimalNotPositive precision scale =>
      "decimal precision and scale must be positive, got precision=" ++ toString precision ++
        " scale=" ++ toString scale
  | .scaleExceedsPrecision precision scale =>
      "decimal scale " ++ toString scale ++ " exceeds precision " ++ toString precision
  | .precisionTooGreat precision =>
      "decimal precision " ++ toString precision ++ " exceeds the supported maximum of " ++
        toString mostPrecision
  | .fixedSizeZero => "fixed size must be positive"
  | .noFixedSize => "fixed requires an explicit size"
  | .noSymbols enum => "enum " ++ named enum ++ " must declare at least one symbol"
  | .repeatedSymbol enum symbol => "enum " ++ named enum ++ " repeats symbol " ++ named symbol
  | .unknownDefaultSymbol enum symbol =>
      "enum " ++ named enum ++ " default " ++ named symbol ++ " is not one of its symbols"
  | .emptyUnion => "union must have at least one member"
  | .repeatedMember identity => "union has more than one member of type " ++ named identity
  | .emptyReference => "record reference must name a record"
  | .defaultNotSymbol enum symbol =>
      "default " ++ named symbol ++ " is not a symbol of enum " ++ named enum
  | .otherName name => "provider returned a definition named " ++ named name

/-- Why records have no schema. -/
inductive SchemaFault where
  /-- The default does not suit the alternative that is written first, if there is one. -/
  | notFirstAlternative (default : Value) (expected : Option Descriptor)
  | notDeclaredType (default : Value) (declared : Descriptor)
  | nameTaken (name : String)

/-- The message of a fault in a schema. -/
def SchemaFault.message : SchemaFault → String
  | .notFirstAlternative default expected =>
      "default of type " ++ default.shape ++ " does not match the first union member " ++
        (expected.map Descriptor.text).getD ""
  | .notDeclaredType default declared =>
      "default of type " ++ default.shape ++ " does not match declared type " ++ declared.text
  | .nameTaken name => "name " ++ named name ++ " is already defined as a different type"

/-- Why a value could not be generated. -/
inductive GenerationFault where
  | invalidSettings (problem : SettingsProblem)
  | unknownOverride
  | nestingTooDeep (limit : Nat)
  | noSymbols (enum : String)
  /-- No alternative of a type ends within the limit. -/
  | noGenerableMember (type : Descriptor) (limit : Nat)
  /-- A record does not end within the limit. -/
  | noTerminalCase (record : String) (limit : Nat)
  | scaleExceedsPrecision (precision scale : Nat)
  | precisionTooGreat (precision : Nat)
  | startYear (year : Int)
  | endYear (year : Int)
  | timeOfDay
  | noAlternative

/-- The message of a fault in a generation. -/
def GenerationFault.message : GenerationFault → String
  | .invalidSettings problem => "invalid generator configuration: " ++ problem.message
  | .unknownOverride => "override does not name a field of the record"
  | .nestingTooDeep limit => "maximum nesting depth (" ++ toString limit ++ ") exceeded"
  | .noSymbols enum => "enum " ++ named enum ++ " has no symbols"
  | .noGenerableMember type limit =>
      "no member of " ++ type.text ++ " can be generated within the self-reference depth (" ++
        toString limit ++ ")"
  | .noTerminalCase record limit =>
      "reference to " ++ named record ++ " exceeds the self-reference depth (" ++
        toString limit ++ ") and has no terminal case"
  | .scaleExceedsPrecision precision scale =>
      "decimal scale " ++ toString scale ++ " exceeds precision " ++ toString precision
  | .precisionTooGreat precision =>
      "decimal precision " ++ toString precision ++ " does not fit in 128 bits"
  | .startYear year => "start_year " ++ toString year ++ " is out of range"
  | .endYear year => "end_year " ++ toString year ++ " is out of range"
  | .timeOfDay => "generated time of day is out of range"
  | .noAlternative => "union has no members"

/-- What is wrong with a model document or with a value for one of its fields. -/
inductive ModelFault where
  | notJson
  | documentNotObject
  | recordNotObject
  | fieldNotObject
  | missingKey (key : String)
  | notArray (key : String)
  | notString (key : String)
  | emptyString (key : String)
  | notStringArray (key : String)
  | notOnlyStrings (key : String)
  | notNumber (key : String)
  | notWord32 (key : String)
  | repeatedRecord
  | emptyTypeName
  | enumNameNotString
  | compositeKeys
  | unionNotArray
  | unknownComposite (key : String)
  | notType (j : Json)
  | mismatch (raw : Json) (type : DeclaredType)
  | noMember (raw : Json)
  | undeclaredRecord (name : String)
  | wrongTag (tag name : String)
  | unknownField (field record : String)
  | noSuchField

/-- The message of a fault in a model. -/
def ModelFault.message : ModelFault → String
  | .notJson => "invalid JSON"
  | .documentNotObject => "model document must be a JSON object"
  | .recordNotObject => "record must be a JSON object"
  | .fieldNotObject => "field must be a JSON object"
  | .missingKey key => "required key " ++ named key ++ " is missing"
  | .notArray key => named key ++ " must be an array"
  | .notString key => named key ++ " must be a string"
  | .emptyString key => named key ++ " must not be empty"
  | .notStringArray key => named key ++ " must be an array of strings"
  | .notOnlyStrings key => named key ++ " must contain only strings"
  | .notNumber key => named key ++ " must be a number"
  | .notWord32 key => named key ++ " must be a non-negative 32-bit integer"
  | .repeatedRecord => "record is declared more than once"
  | .emptyTypeName => "type name must not be empty"
  | .enumNameNotString => "enum name must be a string"
  | .compositeKeys =>
      "composite type must have exactly one of 'array', 'tuple', 'map', 'union', 'optional'"
  | .unionNotArray => "'union' must be an array of types"
  | .unknownComposite key => "unknown composite type " ++ named key
  | .notType j => "invalid type definition: " ++ j.compact
  | .mismatch raw type => "default " ++ raw.compact ++ " is not a valid " ++ type.description
  | .noMember raw => "default " ++ raw.compact ++ " matches no member of the union"
  | .undeclaredRecord name => "default refers to undeclared record " ++ named name
  | .wrongTag tag name => "default is tagged " ++ named tag ++ ", expected " ++ named name
  | .unknownField field record => named field ++ " is not a field of record " ++ named record
  | .noSuchField => "no such field"

/-- Why a file could not be read. -/
inductive ReadFault where
  | notFound
  /-- The path names a directory. -/
  | isDirectory
  /-- The path goes through a file as if that were a directory. -/
  | notDirectory
  | nameTooLong
  | denied
  | notText

/-- The message of a fault in reading. -/
def ReadFault.message : ReadFault → String
  | .notFound => "No such file or directory (os error 2)"
  | .isDirectory => "Is a directory (os error 21)"
  | .notDirectory => "Not a directory (os error 20)"
  | .nameTooLong => "File name too long (os error 36)"
  | .denied => "Permission denied (os error 13)"
  | .notText => "stream did not contain valid UTF-8"

/-! ### Errors -/

/-- An error of the library. -/
inductive Error where
  /-- A declaration is wrong. -/
  | configuration (record : String) (field : Option String) (fault : ConfigurationFault)
  /-- The records have no schema. -/
  | schema (record : String) (field : Option String) (fault : SchemaFault)
  /-- A value cannot be generated. -/
  | generation (record : String) (field : Option String) (fault : GenerationFault)
  /-- No record has the name. -/
  | unknownRecord (name : String)
  /-- A model document, or a value for one of its fields, is wrong. -/
  | model (place : Place) (fault : ModelFault)
  /-- A model document cannot be read. -/
  | read (fault : ReadFault)

namespace Error

/-- The text for a record and perhaps a field. -/
def site (record : String) : Option String → String
  | some field => named (record ++ "." ++ field)
  | none => named record

/-- The message of an error. -/
def message : Error → String
  | .configuration record field fault =>
      "Configuration Error in " ++ site record field ++ ": " ++ fault.message
  | .schema record field fault => "Schema Error in " ++ site record field ++ ": " ++ fault.message
  | .generation record field fault =>
      "Generation Error in " ++ site record field ++ ": " ++ fault.message
  | .unknownRecord name => "Unknown record " ++ named name
  | .model place fault => "Model Error at " ++ place.text ++ ": " ++ fault.message
  | .read fault => "IO Error: " ++ fault.message

/-- The record that an error concerns. -/
def record? : Error → Option String
  | .configuration record _ _ => some record
  | .schema record _ _ => some record
  | .generation record _ _ => some record
  | .unknownRecord name => some name
  | _ => none

/-- The field that an error concerns. -/
def field? : Error → Option String
  | .configuration _ field _ => field
  | .schema _ field _ => field
  | .generation _ field _ => field
  | _ => none

end Error

/-! ### Failures -/

/-- Where a computation breaks down. -/
inductive Breakdown where
  /-- A day number beyond what a length of time can hold. -/
  | dayNumber
  /-- A number drawn from an empty range. -/
  | emptyRange
  /-- A number drawn from a range whose width is not finite. -/
  | wideRange
  /-- A choice whose probability is not between zero and one. -/
  | notProbability
deriving DecidableEq

/-- Why there is no answer. -/
inductive Failure where
  | error (e : Error)
  | breakdown (b : Breakdown)

end RecordModel
