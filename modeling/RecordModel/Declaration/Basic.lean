/-
**Declarations of records.**

A declaration is what the author of a model writes: a record with its fields, each with a type, a
default and some attributes.  Nothing in it is checked.  The parameters of decimals and of byte
strings of fixed length are attributes of the field and hold for every place in its type.

Main definitions:

* `DeclaredType` — types as they are declared;
* `DeclaredDefault`, `FieldAttributes`, `DeclaredField`, `DeclaredRecord` — fields and records;
* `DeclaredType.takesNull` — whether null is written for a value of the type;
* `DeclaredType.description` — the words for a type inside a message.

Main results:

* `DeclaredType.takesNull_union` — a union accepts null when a member does.
-/

import RecordModel.Text.Lowercase
import RecordModel.Text.Quoted
import RecordModel.Value.Basic

set_option relaxedAutoImplicit false
set_option autoImplicit false

namespace RecordModel

/-- A type as it is declared. -/
inductive DeclaredType where
  | boolean
  | int32
  | int64
  | float32
  | float64
  | bytes
  | string
  | null
  | date
  | timeMillis
  | timeMicros
  | timestampMillis
  | timestampMicros
  | uuid
  /-- A decimal; precision and scale are attributes of the field. -/
  | decimal
  /-- Bytes of fixed length; the length is an attribute of the field. -/
  | fixed
  | enum (name : String) (symbols : List String) (default : Option String)
  | list (items : DeclaredType)
  /-- A tuple of any length with items of one type. -/
  | tuple (items : DeclaredType)
  | dict (values : DeclaredType)
  | union (members : List DeclaredType)
  | optional (inner : DeclaredType)
  /-- A record by its name, declared or not. -/
  | record (name : String)
  /-- The record that is being declared. -/
  | self

/-- The default of a declared field. -/
inductive DeclaredDefault where
  /-- The field is absent by default. -/
  | absent
  | value (v : Value)
  /-- The value is made when the record is resolved. -/
  | computed (make : Unit → Value)

/-- The default as a value. -/
def DeclaredDefault.toValue : DeclaredDefault → Value
  | .absent => .null
  | .value v => v
  | .computed make => make ()

/-- The attributes of a declared field. -/
structure FieldAttributes where
  precision : Option Nat
  scale : Option Nat
  /-- The length of fixed bytes. -/
  size : Option Nat
  /-- The name of the type of fixed bytes. -/
  fixedName : Option String
  doc : Option String
  aliases : List String

/-- A declared field. -/
structure DeclaredField where
  name : String
  type : DeclaredType
  default : Option DeclaredDefault
  attributes : FieldAttributes

/-- A declared record. -/
structure DeclaredRecord where
  name : String
  space : Option String
  doc : Option String
  aliases : List String
  fields : List DeclaredField

/-- The first field with the name. -/
def DeclaredRecord.field? (d : DeclaredRecord) (name : String) : Option DeclaredField :=
  d.fields.find? (·.name = name)

namespace DeclaredType

/-! ### Null -/

mutual

/-- Whether null is written for a value of the type. -/
def takesNull : DeclaredType → Bool
  | .null => true
  | .optional _ => true
  | .union members => anyTakesNull members
  | _ => false

/-- Whether null is written for a value of one of the types. -/
def anyTakesNull : List DeclaredType → Bool
  | [] => false
  | t :: rest => t.takesNull || anyTakesNull rest

end

theorem takesNull_union (members : List DeclaredType) :
    takesNull (.union members) = members.any takesNull := by
  have h : ∀ ts : List DeclaredType, anyTakesNull ts = ts.any takesNull := by
    intro ts
    induction ts with
    | nil => simp [anyTakesNull]
    | cons t ts ih => simp [anyTakesNull, ih]
  simp [takesNull, h]

/-! ### The words for a type -/

/-- The words for an optional symbol. -/
def optionForm : Option String → String
  | none => "none"
  | some s => "some(" ++ Text.quoted s ++ ")"

mutual

/-- The structure of a type in words, with names in quotes. -/
def form : DeclaredType → String
  | .boolean => "bool"
  | .int32 => "int32"
  | .int64 => "int64"
  | .float32 => "float32"
  | .float64 => "float64"
  | .bytes => "bytes"
  | .string => "str"
  | .null => "null"
  | .date => "date"
  | .timeMillis => "timemillis"
  | .timeMicros => "timemicros"
  | .timestampMillis => "timestampmillis"
  | .timestampMicros => "timestampmicros"
  | .uuid => "uuid"
  | .decimal => "decimal"
  | .fixed => "fixed"
  | .enum name symbols default =>
      "enum \x7b name: " ++ Text.quoted name ++
        ", symbols: [" ++ ", ".intercalate (symbols.map Text.quoted) ++
        "], default: " ++ optionForm default ++ " \x7d"
  | .list items => "list(" ++ form items ++ ")"
  | .tuple items => "tuple(" ++ form items ++ ")"
  | .dict values => "dict(" ++ form values ++ ")"
  | .union members => "union([" ++ ", ".intercalate (forms members) ++ "])"
  | .optional inner => "optional(" ++ form inner ++ ")"
  | .record name => "record(" ++ Text.quoted name ++ ")"
  | .self => "selfref"

/-- The structures of types in words. -/
def forms : List DeclaredType → List String
  | [] => []
  | t :: rest => form t :: forms rest

end

/-- The words for a type inside a message: a record or an enumeration by its name, any other type
by its structure, in lower case throughout. -/
def description : DeclaredType → String
  | .record name => "record '" ++ name ++ "'"
  | .enum name _ _ => "enum '" ++ name ++ "'"
  | t => Text.lowercase t.form

end DeclaredType

end RecordModel
