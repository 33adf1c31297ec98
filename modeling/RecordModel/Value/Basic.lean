/-
**Values.**

The values that a field can hold: scalars of the primitive and logical types, symbols of an
enumeration, arrays, maps with ascending keys, and instances of records, which list their fields in
the order of declaration.

Main definitions:

* `Instance`, `Value` — instances of records, and values;
* `Value.shape` — the name of the kind of a value;
* `Value.same` — equality of values, with numbers compared as numbers.
-/

import RecordModel.Binary.Basic
import RecordModel.Calendar.Instant
import RecordModel.Decimal
import RecordModel.Keyed
import RecordModel.Uuid

set_option relaxedAutoImplicit false
set_option autoImplicit false

namespace RecordModel

/-- An instance of a record: the name of the record, and the fields in order. -/
structure Instance (α : Type) where
  record : String
  fields : List (String × α)

namespace Instance

variable {α : Type}

/-- The value of the first field with the name. -/
def get? (i : Instance α) (name : String) : Option α := Keyed.get? name i.fields

/-- The number of fields. -/
def size (i : Instance α) : Nat := i.fields.length

end Instance

/-- A value. -/
inductive Value where
  | null
  | boolean (b : Bool)
  | int32 (n : Int32)
  | int64 (n : Int64)
  | float32 (x : Binary32)
  | float64 (x : Binary64)
  | bytes (bs : List UInt8)
  | string (s : String)
  | date (d : Date)
  | timeMillis (t : TimeOfDay)
  | timeMicros (t : TimeOfDay)
  | timestampMillis (i : Instant)
  | timestampMicros (i : Instant)
  | uuid (u : Uuid)
  | decimal (d : Decimal)
  | fixed (bs : List UInt8)
  | enum (symbol : String)
  | array (items : List Value)
  | map (entries : List (String × Value))
  | record (i : Instance Value)

namespace Value

/-- Whether the value is null. -/
def isNull : Value → Bool
  | .null => true
  | _ => false

/-- The instance, if the value is one. -/
def toInstance? : Value → Option (Instance Value)
  | .record i => some i
  | _ => none

/-- The name of the kind of a value. -/
def shape : Value → String
  | .null => "null"
  | .boolean _ => "boolean"
  | .int32 _ => "int32"
  | .int64 _ => "int64"
  | .float32 _ => "float32"
  | .float64 _ => "float64"
  | .bytes _ => "bytes"
  | .string _ => "string"
  | .date _ => "date"
  | .timeMillis _ => "time-millis"
  | .timeMicros _ => "time-micros"
  | .timestampMillis _ => "timestamp-millis"
  | .timestampMicros _ => "timestamp-micros"
  | .uuid _ => "uuid"
  | .decimal _ => "decimal"
  | .fixed _ => "fixed"
  | .enum _ => "enum"
  | .array _ => "array"
  | .map _ => "map"
  | .record _ => "record"

/-- A map with the given entries; of entries with one key the last one stays. -/
def mapOf (entries : List (String × Value)) : Value := .map (Keyed.ofUnsorted entries)

/-! ### Equality -/

mutual

/-- Equality of values: numbers are compared as numbers, so that the zeros are equal and what is
not a number differs from itself; everything else is compared as it is. -/
def same : Value → Value → Bool
  | .null, .null => true
  | .boolean a, .boolean b => a == b
  | .int32 a, .int32 b => a == b
  | .int64 a, .int64 b => a == b
  | .float32 a, .float32 b => Binary.same a b
  | .float64 a, .float64 b => Binary.same a b
  | .bytes a, .bytes b => a == b
  | .string a, .string b => a == b
  | .date a, .date b => a == b
  | .timeMillis a, .timeMillis b => a == b
  | .timeMicros a, .timeMicros b => a == b
  | .timestampMillis a, .timestampMillis b => a == b
  | .timestampMicros a, .timestampMicros b => a == b
  | .uuid a, .uuid b => a == b
  | .decimal a, .decimal b => a == b
  | .fixed a, .fixed b => a == b
  | .enum a, .enum b => a == b
  | .array a, .array b => sameItems a b
  | .map a, .map b => sameEntries a b
  | .record ⟨r, a⟩, .record ⟨r', b⟩ => r == r' && sameEntries a b
  | _, _ => false

/-- Equality of lists of values. -/
def sameItems : List Value → List Value → Bool
  | [], [] => true
  | v :: vs, w :: ws => same v w && sameItems vs ws
  | _, _ => false

/-- Equality of lists of named values. -/
def sameEntries : List (String × Value) → List (String × Value) → Bool
  | [], [] => true
  | (k, v) :: vs, (k', w) :: ws => k == k' && same v w && sameEntries vs ws
  | _, _ => false

end

end Value

end RecordModel
