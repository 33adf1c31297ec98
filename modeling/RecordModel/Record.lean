/-
**Records.**

A record is a name and its fields in the order of declaration, each with its type and perhaps a
default.  Two records are compared with the numbers in their defaults as numbers, so that a record
whose default is not a number differs from itself.

Main definitions:

* `Field`, `Record` — the records;
* `Record.field?` — a field by its name;
* `Record.qualify`, `Record.fullName` — names in a name space;
* `Field.same`, `Record.same` — equality.
-/

import RecordModel.Descriptor

set_option relaxedAutoImplicit false
set_option autoImplicit false

namespace RecordModel

/-- A field of a record. -/
structure Field where
  name : String
  type : Descriptor
  default : Option Value
  /-- The place in the order of declaration. -/
  order : Nat
  doc : Option String
  aliases : List String

/-- A record. -/
structure Record where
  name : String
  space : Option String
  doc : Option String
  aliases : List String
  /-- The fields in the order of declaration. -/
  fields : List Field

/-! ### Names -/

namespace Record

/-- The first field with the name. -/
def field? (r : Record) (name : String) : Option Field := r.fields.find? (·.name = name)

/-- The name behind a name space and a point; an absent or empty space leaves the name alone. -/
def qualify (space : Option String) (name : String) : String :=
  match space with
  | some s => if s.isEmpty then name else s ++ "." ++ name
  | none => name

/-- The name in the name space that the record states. -/
def fullName (r : Record) : String := qualify r.space r.name

end Record

/-! ### Equality -/

namespace Field

/-- Equality of optional defaults, with numbers compared as numbers. -/
def sameDefault : Option Value → Option Value → Bool
  | none, none => true
  | some v, some w => Value.same v w
  | _, _ => false

/-- Equality of fields, with numbers in defaults compared as numbers. -/
def same (a b : Field) : Bool :=
  a.name == b.name && decide (a.type = b.type) && sameDefault a.default b.default &&
    a.order == b.order && a.doc == b.doc && a.aliases == b.aliases

/-- Equality of lists of fields. -/
def sameList : List Field → List Field → Bool
  | [], [] => true
  | a :: as, b :: bs => same a b && sameList as bs
  | _, _ => false

end Field

/-- Equality of records, with numbers in defaults compared as numbers. -/
def Record.same (a b : Record) : Bool :=
  a.name == b.name && a.space == b.space && a.doc == b.doc && a.aliases == b.aliases &&
    Field.sameList a.fields b.fields

end RecordModel
