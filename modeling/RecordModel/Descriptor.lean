/-
**Types of fields.**

A descriptor is a type whose parameters are settled: a primitive type, a logical type that a
primitive carries, a named type, a collection, a union or an optional type, or a reference to a
record by its name.

Main definitions:

* `Primitive`, `Logical`, `FixedBytes`, `Enumeration`, `Descriptor` — the types;
* `Descriptor.identity` — what members of a union must not share;
* `Descriptor.alternatives` — the alternatives of a type, an optional type being null or the rest;
* `Descriptor.height` — how deep a type is nested;
* `Descriptor.text` — the text of a type.

Main results:

* `Descriptor.beq_iff` — equality of types is decided;
* `Descriptor.alternatives_optional` — the alternatives of an optional type;
* `Descriptor.height_alternatives_le` — alternatives are not nested deeper than the type.
-/

import RecordModel.Value.Basic

set_option relaxedAutoImplicit false
set_option autoImplicit false

namespace RecordModel

/-! ### Primitive and logical types -/

/-- The types that values are carried by. -/
inductive Primitive where
  | boolean
  | int32
  | int64
  | float32
  | float64
  | bytes
  | string
  | null
deriving DecidableEq

namespace Primitive

/-- The name of the type. -/
def name : Primitive → String
  | .boolean => "boolean"
  | .int32 => "int32"
  | .int64 => "int64"
  | .float32 => "float32"
  | .float64 => "float64"
  | .bytes => "bytes"
  | .string => "string"
  | .null => "null"

/-- The name of the type inside a schema. -/
def schemaName : Primitive → String
  | .boolean => "boolean"
  | .int32 => "int"
  | .int64 => "long"
  | .float32 => "float"
  | .float64 => "double"
  | .bytes => "bytes"
  | .string => "string"
  | .null => "null"

end Primitive

/-- The types that give a primitive type a meaning. -/
inductive Logical where
  | date
  | timeMillis
  | timeMicros
  | timestampMillis
  | timestampMicros
  | uuid
  | decimal (precision scale : Nat)
deriving DecidableEq

namespace Logical

/-- The name of the type. -/
def name : Logical → String
  | .date => "date"
  | .timeMillis => "time-millis"
  | .timeMicros => "time-micros"
  | .timestampMillis => "timestamp-millis"
  | .timestampMicros => "timestamp-micros"
  | .uuid => "uuid"
  | .decimal _ _ => "decimal"

/-- The primitive type that carries the values. -/
def carrier : Logical → Primitive
  | .date => .int32
  | .timeMillis => .int32
  | .timeMicros => .int64
  | .timestampMillis => .int64
  | .timestampMicros => .int64
  | .uuid => .string
  | .decimal _ _ => .bytes

end Logical

/-! ### Descriptors -/

/-- A named type of bytes of one length. -/
structure FixedBytes where
  name : String
  size : Nat
deriving DecidableEq

/-- A named enumeration. -/
structure Enumeration where
  name : String
  symbols : List String
  /-- The symbol that stands for unknown ones. -/
  default : Option String
deriving DecidableEq

/-- The type of a field. -/
inductive Descriptor where
  | primitive (kind : Primitive)
  | logical (kind : Logical)
  | fixed (type : FixedBytes)
  | enum (type : Enumeration)
  | array (items : Descriptor)
  | map (values : Descriptor)
  | union (members : List Descriptor)
  | optional (inner : Descriptor)
  /-- A record by its name. -/
  | reference (record : String)

namespace Descriptor

/-- The type of null. -/
abbrev null : Descriptor := .primitive .null

/-- Whether the type is that of null. -/
def isNull : Descriptor → Bool
  | .primitive .null => true
  | _ => false

/-- Whether the type is one of several alternatives: a union or an optional type. -/
def hasAlternatives : Descriptor → Bool
  | .union _ => true
  | .optional _ => true
  | _ => false

/-- Whether the type is an optional type. -/
def isOptional : Descriptor → Bool
  | .optional _ => true
  | _ => false

/-- What two members of a union must not share: the name of a named type, and the kind of any
other. -/
def identity : Descriptor → String
  | .primitive kind => kind.name
  | .logical kind => kind.name
  | .fixed type => type.name
  | .enum type => type.name
  | .array _ => "array"
  | .map _ => "map"
  | .union _ => "union"
  | .optional _ => "union"
  | .reference record => record

/-- The alternatives of a type: the members of a union, null and the others of an optional type,
and any other type by itself. -/
def alternatives : Descriptor → List Descriptor
  | .union ms => ms
  | .optional inner => null :: inner.alternatives.filter fun m => !m.isNull
  | d => [d]

theorem alternatives_optional (inner : Descriptor) :
    alternatives (.optional inner) = null :: inner.alternatives.filter fun m => !m.isNull := by
  simp [alternatives]

theorem isNull_iff (d : Descriptor) : d.isNull = true ↔ d = null := by
  unfold isNull
  split
  · simp
  · rename_i h
    simp only [Bool.false_eq_true, false_iff]
    exact h

/-! ### Height -/

mutual

/-- How deep a type is nested. -/
def height : Descriptor → Nat
  | .array items => height items + 1
  | .map values => height values + 1
  | .union members => heights members + 1
  | .optional inner => height inner + 1
  | _ => 0

/-- How deep some types are nested at most. -/
def heights : List Descriptor → Nat
  | [] => 0
  | d :: rest => max (height d) (heights rest)

end

theorem height_le_heights {d : Descriptor} {ds : List Descriptor} (h : d ∈ ds) :
    height d ≤ heights ds := by
  induction ds with
  | nil => simp at h
  | cons e rest ih =>
      rcases List.mem_cons.mp h with rfl | h
      · exact Nat.le_max_left _ _
      · exact Nat.le_trans (ih h) (Nat.le_max_right _ _)

/-- No alternative of a type is nested deeper than the type. -/
theorem height_alternatives_le (d : Descriptor) : ∀ m ∈ d.alternatives, height m ≤ height d := by
  fun_induction alternatives d with
  | case1 ms =>
      intro m hm
      exact Nat.le_succ_of_le (height_le_heights hm)
  | case2 inner ih =>
      intro m hm
      rcases List.mem_cons.mp hm with rfl | hm
      · exact Nat.zero_le _
      · exact Nat.le_succ_of_le (ih m (List.mem_filter.mp hm).1)
  | case3 d =>
      intro m hm
      exact Nat.le_of_eq (congrArg height (List.mem_singleton.mp hm))

theorem height_lt_of_mem_optional {inner m : Descriptor} (hm : m ∈ alternatives (.optional inner)) :
    height m < height (.optional inner) := by
  rw [alternatives_optional] at hm
  rw [height]
  rcases List.mem_cons.mp hm with rfl | hm
  · exact Nat.succ_pos _
  · exact Nat.lt_succ_of_le (height_alternatives_le inner m (List.mem_filter.mp hm).1)

theorem height_lt_of_mem_union {members : List Descriptor} {m : Descriptor} (hm : m ∈ members) :
    height m < height (.union members) := by
  rw [height]
  exact Nat.lt_succ_of_le (height_le_heights hm)

/-! ### Text -/

mutual

/-- The text of a type. -/
def text : Descriptor → String
  | .primitive kind => kind.name
  | .logical (.decimal precision scale) =>
      "decimal(" ++ toString precision ++ ", " ++ toString scale ++ ")"
  | .logical kind => kind.name
  | .fixed type => "fixed(" ++ toString type.size ++ ")"
  | .enum type => "enum " ++ type.name
  | .array items => "array<" ++ text items ++ ">"
  | .map values => "map<" ++ text values ++ ">"
  | .union members => "union[" ++ ", ".intercalate (texts members) ++ "]"
  | .optional inner => "optional<" ++ text inner ++ ">"
  | .reference record => record

/-- The texts of types. -/
def texts : List Descriptor → List String
  | [] => []
  | d :: rest => text d :: texts rest

end

/-! ### Equality -/

mutual

/-- Equality of types. -/
def beq : Descriptor → Descriptor → Bool
  | .primitive a, .primitive b => a == b
  | .logical a, .logical b => a == b
  | .fixed a, .fixed b => a == b
  | .enum a, .enum b => a == b
  | .array a, .array b => beq a b
  | .map a, .map b => beq a b
  | .union a, .union b => beqList a b
  | .optional a, .optional b => beq a b
  | .reference a, .reference b => a == b
  | _, _ => false

/-- Equality of lists of types. -/
def beqList : List Descriptor → List Descriptor → Bool
  | [], [] => true
  | a :: as, b :: bs => beq a b && beqList as bs
  | _, _ => false

end

mutual

theorem beq_iff (a b : Descriptor) : beq a b = true ↔ a = b := by
  cases a <;> cases b <;> simp [beq, beq_iff, beqList_iff]

theorem beqList_iff (as bs : List Descriptor) : beqList as bs = true ↔ as = bs := by
  cases as <;> cases bs <;> simp [beqList, beq_iff, beqList_iff]

end

instance : DecidableEq Descriptor := fun a b => decidable_of_iff _ (beq_iff a b)

end Descriptor

end RecordModel
