/-
**Written values of declared types.**

A default of a field, and a value that is given for one, are written as JSON and converted by the
declared type.  A union takes the first member whose conversion succeeds, and of an object that
names its record under the key `$record` it takes only that record.  An object for a record may
leave fields out but may not name other ones; inside it `self` is that record.

A day number beyond the greatest length of time breaks the conversion down, also inside a union.

Main definitions:

* `Conversion.scalar` — the types without parts;
* `Conversion.convert` — all types;
* `Conversion.tagKey` — the key that names the record of an object.

Main results:

* `Conversion.convert_null`, `Conversion.convert_optional`, `Conversion.convert_union` — null, and
  the types that pass everything else on to other types.
-/

import RecordModel.Error

set_option relaxedAutoImplicit false
set_option autoImplicit false

namespace RecordModel.Conversion

/-! ### Types without parts -/

/-- The bytes of a text whose characters have the numbers of bytes. -/
def bytesOf? (s : String) : Option (List UInt8) :=
  s.toList.mapM fun c => if c.toNat < 256 then some (UInt8.ofNat c.toNat) else none

/-- The greatest length of time in days. -/
def mostDays : Nat := 106751991167

/-- The date that a text or a day number stands for. -/
def dateOf (raw : Json) : Except Breakdown (Option Date) :=
  match raw with
  | .string s => .ok (Date.parse s.toList)
  | _ =>
      match raw.toInt64? with
      | some n =>
          if mostDays < n.toInt.natAbs then .error .dayNumber else .ok (Date.ofDay? n.toInt)
      | none => .ok none

/-- The time of day that a text or a number of units stands for. -/
def timeOf? (perSecond : Nat) (raw : Json) : Option TimeOfDay :=
  match raw with
  | .string s => TimeOfDay.parse s.toList
  | _ => raw.toInt64?.bind fun n => TimeOfDay.ofUnits? perSecond n.toInt

/-- The instant that a text or a number of units stands for. -/
def instantOf? (perSecond : Nat) (raw : Json) : Option Instant :=
  match raw with
  | .string s => Instant.parse s.toList
  | _ => raw.toInt64?.bind fun n => Instant.ofUnits? perSecond n.toInt

/-- The whole number of 32 bits. -/
def int32Of? (raw : Json) : Option Int32 :=
  raw.toInt64?.bind fun n =>
    if -(pow2 31 : Int) ≤ n.toInt ∧ n.toInt < pow2 31 then some (Int32.ofInt n.toInt) else none

/-- What a text is read as. -/
def ofString? {α : Type} (read : String → Option α) : Json → Option α
  | .string s => read s
  | _ => none

/-- The boolean. -/
def booleanOf? : Json → Option Bool
  | .boolean b => some b
  | _ => none

/-- The value of a type without parts; none if the type does not take what is written. -/
def scalar (type : DeclaredType) (raw : Json) : Except Breakdown (Option Value) :=
  match type with
  | .boolean => .ok ((booleanOf? raw).map .boolean)
  | .int32 => .ok ((int32Of? raw).map .int32)
  | .int64 => .ok (raw.toInt64?.map .int64)
  | .float32 => .ok (raw.toBinary64?.map fun x => .float32 x.narrow)
  | .float64 => .ok (raw.toBinary64?.map .float64)
  | .string => .ok (ofString? (fun s => some (.string s)) raw)
  | .bytes => .ok ((ofString? bytesOf? raw).map .bytes)
  | .fixed => .ok ((ofString? bytesOf? raw).map .fixed)
  | .date => do return (← dateOf raw).map .date
  | .timeMillis => .ok ((timeOf? 1000 raw).map .timeMillis)
  | .timeMicros => .ok ((timeOf? 1000000 raw).map .timeMicros)
  | .timestampMillis => .ok ((instantOf? 1000 raw).map .timestampMillis)
  | .timestampMicros => .ok ((instantOf? 1000000 raw).map .timestampMicros)
  | .uuid => .ok ((ofString? (fun s => Uuid.parse s.toList) raw).map .uuid)
  | .decimal => .ok ((ofString? (fun s => Decimal.parse s.toList) raw).map .decimal)
  | .enum _ _ _ => .ok (ofString? (fun s => some (.enum s)) raw)
  | _ => .ok none

/-! ### Objects for records -/

/-- The key that names the record of an object. -/
def tagKey : String := "$record"

/-- The record that an object names. -/
def tagOf? (members : List (String × Json)) : Option String :=
  (Keyed.get? tagKey members).bind (ofString? some)

/-- The record that a whole value names. -/
def tagOfValue? : Json → Option String
  | .object members => tagOf? members
  | _ => none

/-- Whether a member of a union is the record with the name. -/
def isRecord (owner : String) (type : DeclaredType) (name : String) : Bool :=
  match type with
  | .record r => r = name
  | .self => owner = name
  | _ => false

/-- What keeps an object from being an instance of a record with the given fields. -/
def objectFault? (name : String) (fields : List DeclaredField) (members : List (String × Json)) :
    Option ModelFault :=
  match (tagOf? members).filter (· ≠ name) with
  | some tag => some (.wrongTag tag name)
  | none =>
      let unknown := (Keyed.keys members).find? fun k =>
        k ≠ tagKey && !fields.any (·.name = k)
      unknown.map fun k => .unknownField k name

/-! ### All types -/

/-- The error at a place. -/
def fail {α : Type} (place : Place) (fault : ModelFault) : Except Failure α :=
  .error (.error (.model place fault))

/-- The value of a type without parts, or the error that it is none. -/
def convertScalar (raw : Json) (type : DeclaredType) (place : Place) : Except Failure Value :=
  match scalar type raw with
  | .ok (some v) => .ok v
  | .ok none => fail place (.mismatch raw type)
  | .error b => .error (.breakdown b)

theorem sizeOf_lt_of_get? {k : String} {j : Json} {members : List (String × Json)}
    (h : Keyed.get? k members = some j) : sizeOf j < sizeOf members := by
  have := List.sizeOf_lt_of_mem (Keyed.mem_of_get? h)
  simp only [Prod.mk.sizeOf_spec] at this
  omega

variable (records : List DeclaredRecord)

mutual

/-- The value that is written for a type, in the record `owner`. -/
def convert (owner : String) (raw : Json) (type : DeclaredType) (place : Place) :
    Except Failure Value :=
  match raw, type.takesNull with
  | .null, true => .ok .null
  | raw, _ =>
      match type with
      | .list items => convertArray owner raw items type place
      | .tuple items => convertArray owner raw items type place
      | .dict values =>
          match raw with
          | .object members => .mapOf <$> convertEntries owner members values place
          | _ => fail place (.mismatch raw type)
      | .optional inner => convert owner raw inner place
      | .union members => convertUnion owner raw members place
      | .record name =>
          match raw with
          | .object members => convertObject name members place
          | _ => fail place (.mismatch raw type)
      | .self =>
          match raw with
          | .object members => convertObject owner members place
          | _ => fail place (.mismatch raw type)
      | _ => convertScalar raw type place
termination_by (sizeOf raw, sizeOf type)

/-- An array whose items have the type `items`; `type` is its own type. -/
def convertArray (owner : String) (raw : Json) (items : DeclaredType) (type : DeclaredType)
    (place : Place) : Except Failure Value :=
  match raw with
  | .array values => .array <$> convertItems owner values items place 0
  | _ => fail place (.mismatch raw type)
termination_by (sizeOf raw, 0)

/-- The items of an array from the given position on. -/
def convertItems (owner : String) (values : List Json) (type : DeclaredType) (place : Place)
    (index : Nat) : Except Failure (List Value) :=
  match values with
  | [] => .ok []
  | raw :: rest => do
      let v ← convert owner raw type (.item place index)
      return v :: (← convertItems owner rest type place (index + 1))
termination_by (sizeOf values, 0)

/-- The entries of a map. -/
def convertEntries (owner : String) (entries : List (String × Json)) (type : DeclaredType)
    (place : Place) : Except Failure (List (String × Value)) :=
  match entries with
  | [] => .ok []
  | (key, raw) :: rest => do
      let v ← convert owner raw type (.member place key)
      return (key, v) :: (← convertEntries owner rest type place)
termination_by (sizeOf entries, 0)

/-- The first of some members of a union that takes what is written. -/
def convertUnion (owner : String) (raw : Json) (members : List DeclaredType) (place : Place) :
    Except Failure Value :=
  match members with
  | [] => fail place (.noMember raw)
  | t :: rest =>
      if ((tagOfValue? raw).map (isRecord owner t)).getD true then
        match convert owner raw t place with
        | .ok v => .ok v
        | .error (.breakdown b) => .error (.breakdown b)
        | .error (.error _) => convertUnion owner raw rest place
      else convertUnion owner raw rest place
termination_by (sizeOf raw, sizeOf members)

/-- An instance of the record with the name. -/
def convertObject (name : String) (members : List (String × Json)) (place : Place) :
    Except Failure Value :=
  match records.find? (·.name = name) with
  | none => fail place (.undeclaredRecord name)
  | some declared =>
      match objectFault? name declared.fields members with
      | some fault => fail place fault
      | none => do
          let fields ← convertFields name members declared.fields place
          return .record ⟨name, fields⟩
termination_by (sizeOf (Json.object members), 0)

/-- The fields of an instance that are written, in the order of declaration. -/
def convertFields (owner : String) (members : List (String × Json))
    (fields : List DeclaredField) (place : Place) : Except Failure (List (String × Value)) :=
  match fields with
  | [] => .ok []
  | f :: rest =>
      match _h : Keyed.get? f.name members with
      | none => convertFields owner members rest place
      | some raw => do
          let v ← convert owner raw f.type (.member place f.name)
          return (f.name, v) :: (← convertFields owner members rest place)
termination_by (sizeOf members, sizeOf fields)
decreasing_by
  · exact Prod.Lex.right _ (by simp only [List.cons.sizeOf_spec]; omega)
  · exact Prod.Lex.left _ _ (sizeOf_lt_of_get? (by assumption))
  · exact Prod.Lex.right _ (by simp only [List.cons.sizeOf_spec]; omega)

end

/-! ### Equations -/

theorem convert_null (owner : String) (type : DeclaredType) (place : Place)
    (h : type.takesNull = true) : convert records owner .null type place = .ok .null := by
  rw [convert]
  exact h

theorem convert_optional (owner : String) (raw : Json) (inner : DeclaredType) (place : Place)
    (h : raw ≠ .null) :
    convert records owner raw (.optional inner) place = convert records owner raw inner place := by
  rw [convert]
  exact fun hr => absurd hr h

theorem convert_union (owner : String) (raw : Json) (members : List DeclaredType) (place : Place)
    (h : raw ≠ .null) :
    convert records owner raw (.union members) place =
      convertUnion records owner raw members place := by
  rw [convert]
  exact fun hr => absurd hr h

end RecordModel.Conversion
