/-
**The schema of a record.**

The schema of a record comes from a walk through the types of its fields and through the records
that they refer to.  The walk carries the named types that stand in the schema already: a type that
is met again becomes a reference, and a name that is met again with another type is an error.  A
record without a name space of its own lies in that of the record around it, and so do enumerations
and fixed bytes.

A record is expanded once only, so the walk ends.  The number of expansions left is the argument of
the recursion; `Schema.ofRecord` starts with enough of them for every name that the registry knows.

Main definitions:

* `NamedType`, `NamedDefinition`, `Expansion`, `Scope` — what the walk carries;
* `Schema.ofDescriptor` — the schema of a type;
* `Schema.expandF` — the schema of a record, with a bound on the expansions;
* `Schema.ofRecord`, `Schema.jsonOfRecord` — the schema of a record, and how it is written.

Main results:

* `Schema.fetch_run` — fetching a record leaves the named types alone;
* `Schema.ofDescriptor_of_hasAlternatives` — the schema of a union has those of its members.
-/

import RecordModel.Conformance
import RecordModel.Registry
import RecordModel.Schema.Basic
import RecordModel.Value.Encoding

set_option relaxedAutoImplicit false
set_option autoImplicit false

namespace RecordModel

/-! ### The state of the walk -/

/-- A type that bears a name in a schema. -/
inductive NamedType where
  | record
  | enum (type : Enumeration)
  | fixed (type : FixedBytes)
deriving DecidableEq

/-- A named type that stands in the schema. -/
structure NamedDefinition where
  fullName : String
  type : NamedType
deriving DecidableEq

/-- What the walk carries: the registry, and the named types of the schema by their bare names. -/
structure Expansion where
  registry : Registry
  definitions : List (String × NamedDefinition)

/-- Where the walk is: the record whose fields it goes through, and the name space in force. -/
structure Scope where
  record : String
  space : Option String

/-- Computations that walk through records. -/
abbrev ExpansionM := Stateful Expansion Error

namespace Schema

/-- The record of a name. -/
def fetch (name : String) : ExpansionM Record :=
  Stateful.onPart (·.registry) (fun registry s => { s with registry }) id (Registry.fetch name)

/-- Fetching a record leaves the named types alone. -/
theorem fetch_run (name : String) (s : Expansion) :
    (fetch name).run s =
      (s.registry.answer name, { s with registry := s.registry.remember name }) := by
  rw [fetch, Stateful.run_onPart, Registry.fetch_run]
  cases s.registry.answer name <;> rfl

/-- The definition that a bare name has in the schema. -/
def definition? (name : String) : ExpansionM (Option NamedDefinition) := do
  return Keyed.get? name (← get).definitions

/-- Notes that a named type stands in the schema. -/
def define (name : String) (d : NamedDefinition) : ExpansionM Unit :=
  modify fun s => { s with definitions := Keyed.put name d s.definitions }

/-! ### Types -/

/-- An enumeration or fixed bytes: in full at the first place, a reference at any later one. -/
def named (scope : Scope) (name : String) (type : NamedType) (full : Schema) :
    ExpansionM Schema := do
  match ← definition? name with
  | none => do
      define name ⟨Record.qualify scope.space name, type⟩
      return full
  | some d =>
      if d.type = type then return .reference d.fullName
      else throw (.schema scope.record none (.nameTaken name))

/-- A reference to a record, which `expand` gives in full at its first place. -/
def referenced (expand : Scope → String → ExpansionM Schema) (scope : Scope) (name : String) :
    ExpansionM Schema := do
  match ← definition? name with
  | none => expand scope name
  | some d =>
      if d.type = .record then return .reference d.fullName
      else throw (.schema scope.record none (.nameTaken name))

/-- The schema of a type; `expand` gives a record in full at its first place. -/
def ofDescriptor (expand : Scope → String → ExpansionM Schema) (scope : Scope) :
    Descriptor → ExpansionM Schema
  | .primitive kind => return .primitive kind
  | .logical kind => return .logical kind
  | .fixed type => named scope type.name (.fixed type) (.fixed type)
  | .enum type => named scope type.name (.enum type) (.enum type)
  | .array items => .array <$> ofDescriptor expand scope items
  | .map values => .map <$> ofDescriptor expand scope values
  | .union members => .union <$> members.attach.mapM fun m => ofDescriptor expand scope m.1
  | .optional inner =>
      .union <$> (Descriptor.alternatives (.optional inner)).attach.mapM fun m =>
        ofDescriptor expand scope m.1
  | .reference name => referenced expand scope name
termination_by d => d.height
decreasing_by
  · exact Nat.lt_succ_self _
  · exact Nat.lt_succ_self _
  · exact Descriptor.height_lt_of_mem_union m.2
  · exact Descriptor.height_lt_of_mem_optional m.2

theorem ofDescriptor_of_hasAlternatives (expand : Scope → String → ExpansionM Schema)
    (scope : Scope) {d : Descriptor} (h : d.hasAlternatives = true) :
    ofDescriptor expand scope d = .union <$> d.alternatives.mapM (ofDescriptor expand scope) := by
  cases d with
  | union members => simp [ofDescriptor, Descriptor.alternatives, List.mapM_subtype]
  | optional inner => simp [ofDescriptor, List.mapM_subtype]
  | _ => simp [Descriptor.hasAlternatives] at h

/-! ### Records -/

/-- A field, whose default is checked first.  The alternatives of its type are written in the order
that the default asks for. -/
def ofField (expand : Scope → String → ExpansionM Schema) (strict : Bool) (scope : Scope)
    (field : Field) : ExpansionM (FieldSchema Schema) := do
  ExceptT.mk (pure (checkDefault scope.record field strict))
  let type ←
    if field.type.hasAlternatives then
      .union <$> (writtenAlternatives field.type field.default).mapM (ofDescriptor expand scope)
    else ofDescriptor expand scope field.type
  return ⟨field.name, type, field.default.map Value.toJson, field.doc, field.aliases⟩

/-- The schema of a record, with at most so many expansions of records below one another. -/
def expandF (strict : Bool) : Nat → Scope → String → ExpansionM Schema
  | 0, _, name => throw (.unknownRecord name)
  | budget + 1, outer, name => do
      let record ← fetch name
      let scope : Scope := ⟨record.name, record.space.or outer.space⟩
      define record.name ⟨Record.qualify scope.space record.name, .record⟩
      let fields ← record.fields.mapM (ofField (expandF strict budget) strict scope)
      return .record ⟨record.name, record.space, record.doc, record.aliases, fields⟩

/-- The schema of a record; `strict` asks the default of a union to suit the alternative that is
written first. -/
def ofRecord (strict : Bool) (name : String) : RegistryM Schema :=
  ExceptT.mk fun registry =>
    let start : Scope := ⟨"", none⟩
    let (answer, state) :=
      (expandF strict (registry.knownNames.length + 1) start name).run ⟨registry, []⟩
    (answer, state.registry)

/-- The schema of a record as it is written. -/
def jsonOfRecord (strict : Bool) (name : String) : RegistryM Json :=
  Schema.toJson <$> ofRecord strict name

end Schema

end RecordModel
