/-
**Values of a type.**

Whether a value has the shape that a type asks for.  A type of 64 bits takes values of 32 bits too,
and a number of 64 bits is taken for 32 bits when it is within their range.  A reference takes the
instances of its record by their name; what is inside them is not looked at.

A default is checked against the type of its field.  A union is written with its members in order,
and an optional type with null first, unless the field has a default other than null; a strict
check asks the default to suit the member that is written first.

Main definitions:

* `Primitive.accepts`, `Logical.accepts`, `Descriptor.accepts` — the values of a type;
* `writtenAlternatives` — the alternatives of a type in the order in which they are written;
* `defaultFault?`, `checkDefault` — what is wrong with the default of a field.

Main results:

* `Descriptor.accepts_union`, `Descriptor.accepts_array`, `Descriptor.accepts_map` — collections
  and unions, by their parts;
* `Descriptor.accepts_optional` — an optional type takes null and what its inner type takes.
-/

import RecordModel.Error

set_option relaxedAutoImplicit false
set_option autoImplicit false

namespace RecordModel

/-- The greatest finite number of 32 bits, as one of 64 bits. -/
def greatestSingle : Binary64 := (Binary.ofMagnitude false BinaryFormat.single.greatest).widen

/-- The values of a primitive type. -/
def Primitive.accepts : Primitive → Value → Bool
  | .null, .null => true
  | .boolean, .boolean _ => true
  | .int32, .int32 _ => true
  | .int64, .int64 _ => true
  | .int64, .int32 _ => true
  | .float32, .float32 x => x.isFinite
  | .float32, .float64 x => x.isFinite && x.magnitude ≤ greatestSingle.magnitude
  | .float64, .float64 x => x.isFinite
  | .float64, .float32 x => x.isFinite
  | .bytes, .bytes _ => true
  | .string, .string _ => true
  | _, _ => false

/-- The values of a logical type. -/
def Logical.accepts : Logical → Value → Bool
  | .date, .date _ => true
  | .timeMillis, .timeMillis _ => true
  | .timeMicros, .timeMicros _ => true
  | .timestampMillis, .timestampMillis _ => true
  | .timestampMicros, .timestampMicros _ => true
  | .uuid, .uuid _ => true
  | .decimal precision scale, .decimal d => d.scale == scale && d.digits ≤ precision
  | _, _ => false

namespace Descriptor

mutual

/-- The values of a type. -/
def accepts : Descriptor → Value → Bool
  | .primitive kind, v => kind.accepts v
  | .logical kind, v => kind.accepts v
  | .fixed type, .fixed bs => bs.length == type.size
  | .enum type, .enum symbol => type.symbols.contains symbol
  | .array items, .array vs => vs.all fun v => accepts items v
  | .map values, .map entries => entries.all fun e => accepts values e.2
  | .union members, v => anyAccepts members v
  | .optional inner, v => v.isNull || accepts inner v
  | .reference record, .record i => i.record == record
  | _, _ => false

/-- The values of one of some types. -/
def anyAccepts : List Descriptor → Value → Bool
  | [], _ => false
  | d :: rest, v => accepts d v || anyAccepts rest v

end

theorem anyAccepts_eq_any (ds : List Descriptor) (v : Value) :
    anyAccepts ds v = ds.any fun d => accepts d v := by
  induction ds with
  | nil => simp [anyAccepts]
  | cons d rest ih => simp [anyAccepts, ih]

theorem accepts_union (members : List Descriptor) (v : Value) :
    accepts (.union members) v = members.any fun d => accepts d v := by
  rw [accepts, anyAccepts_eq_any]

theorem accepts_optional (inner : Descriptor) (v : Value) :
    accepts (.optional inner) v = (v.isNull || accepts inner v) := by
  rw [accepts]

theorem accepts_array (items : Descriptor) (vs : List Value) :
    accepts (.array items) (.array vs) = vs.all fun v => accepts items v := by
  rw [accepts]

theorem accepts_map (values : Descriptor) (entries : List (String × Value)) :
    accepts (.map values) (.map entries) = entries.all fun e => accepts values e.2 := by
  rw [accepts]

end Descriptor

/-! ### Defaults -/

/-- Whether there is a default other than null. -/
def hasConcreteDefault : Option Value → Bool
  | some v => !v.isNull
  | none => false

/-- The alternatives of a type in the order in which they are written for a field: null goes last
in an optional type if the field has a default other than null. -/
def writtenAlternatives (type : Descriptor) (default : Option Value) : List Descriptor :=
  match type, type.alternatives with
  | .optional _, first :: rest =>
      if hasConcreteDefault default then rest ++ [first] else first :: rest
  | _, members => members

/-- What is wrong with a default for a type; `strict` asks it to suit the first alternative of a
union. -/
def defaultFault? (type : Descriptor) (default : Value) (strict : Bool) : Option SchemaFault :=
  if type.hasAlternatives then
    let members := writtenAlternatives type (some default)
    let matched :=
      if strict then (members.head?.map fun m => m.accepts default).getD false
      else members.any fun m => m.accepts default
    if matched then none else some (.notFirstAlternative default members.head?)
  else if type.accepts default then none
  else some (.notDeclaredType default type)

/-- Checks the default of a field of the record named `record`. -/
def checkDefault (record : String) (field : Field) (strict : Bool) : Except Error Unit :=
  match field.default.bind fun v => defaultFault? field.type v strict with
  | none => .ok ()
  | some fault => .error (.schema record (some field.name) fault)

end RecordModel
