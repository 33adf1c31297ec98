/-
**From declarations to records.**

A declared record is settled by giving every field its type and by checking what the declaration
says.  The types become canonical on the way: unions and optional types inside a union are spliced
into it, an optional type wraps only what is not null, and the attributes of the field go into the
decimals and the fixed bytes of its type.  A reference to another record stays a name.

Main definitions:

* `repeated?` — the first name that was there before;
* `Descriptor.spliced`, `Descriptor.asOptional` — unions inside unions, and optional types;
* `Descriptor.ofDeclared` — the type that a declared type becomes;
* `Descriptor.settledDefault` — the default of an enumeration has to be a symbol;
* `Field.ofDeclaration`, `Record.ofDeclaration` — fields and records.

Main results:

* `repeated?_eq_none_iff` — no name is repeated exactly when the names are distinct;
* `Descriptor.spliced_eq_alternatives` — what is spliced into a union are the alternatives of a type
  whose own members need no splicing.
-/

import RecordModel.Error

set_option relaxedAutoImplicit false
set_option autoImplicit false

namespace RecordModel

/-! ### Repeated names -/

/-- The first of some names that is among those seen or came before. -/
def repeatedAfter (seen : List String) : List String → Option String
  | [] => none
  | x :: rest => if x ∈ seen then some x else repeatedAfter (x :: seen) rest

/-- The first name that was there before. -/
def repeated? (names : List String) : Option String := repeatedAfter [] names

theorem repeatedAfter_eq_none_iff (seen names : List String) :
    repeatedAfter seen names = none ↔ names.Nodup ∧ ∀ x ∈ names, x ∉ seen := by
  induction names generalizing seen with
  | nil => simp [repeatedAfter]
  | cons x rest ih =>
      by_cases h : x ∈ seen
      · simp [repeatedAfter, h]
      · simp only [repeatedAfter, h, if_false, ih, List.nodup_cons, List.mem_cons, not_or,
          forall_eq_or_imp, not_false_eq_true, true_and]
        constructor
        · rintro ⟨hn, hs⟩
          exact ⟨⟨fun hx => (hs x hx).1 rfl, hn⟩, fun y hy => (hs y hy).2⟩
        · rintro ⟨⟨hx, hn⟩, hs⟩
          exact ⟨hn, fun y hy => ⟨fun he => hx (he ▸ hy), hs y hy⟩⟩

theorem repeated?_eq_none_iff (names : List String) : repeated? names = none ↔ names.Nodup := by
  simp [repeated?, repeatedAfter_eq_none_iff]

/-! ### Types -/

/-- The field whose type is settled. -/
structure FieldSite where
  record : String
  field : String
  attributes : FieldAttributes

namespace Descriptor

/-- What a type contributes to a union around it. -/
def spliced : Descriptor → List Descriptor
  | .union members => members
  | .optional (.union members) => .null :: members
  | .optional inner => [.null, inner]
  | d => [d]

/-- The optional type of a type: null and optional types are left alone, and of a union the members
that are not null are wrapped. -/
def asOptional : Descriptor → Descriptor
  | .optional inner => .optional inner
  | .primitive .null => .null
  | .union members =>
      match members.filter fun m => !m.isNull with
      | [] => .null
      | [m] => .optional m
      | ms => .optional (.union ms)
  | d => .optional d

/-- A decimal with the attributes of its field. -/
def ofDecimal (a : FieldAttributes) : Except ConfigurationFault Descriptor :=
  match a.precision, a.scale with
  | none, _ => .error .noPrecision
  | some _, none => .error .noScale
  | some precision, some scale =>
      if precision = 0 ∨ scale = 0 then .error (.decimalNotPositive precision scale)
      else if precision < scale then .error (.scaleExceedsPrecision precision scale)
      else if mostPrecision < precision then .error (.precisionTooGreat precision)
      else .ok (.logical (.decimal precision scale))

/-- Fixed bytes with the attributes of their field, which also gives them a name. -/
def ofFixed (ctx : FieldSite) : Except ConfigurationFault Descriptor :=
  match ctx.attributes.size with
  | none => .error .noFixedSize
  | some 0 => .error .fixedSizeZero
  | some size => .ok (.fixed ⟨ctx.attributes.fixedName.getD ctx.field, size⟩)

/-- An enumeration; without a name of its own it takes that of the field. -/
def ofEnum (ctx : FieldSite) (name : String) (symbols : List String) (default : Option String) :
    Except ConfigurationFault Descriptor :=
  if symbols.isEmpty then .error (.noSymbols name)
  else match repeated? symbols with
    | some symbol => .error (.repeatedSymbol name symbol)
    | none =>
        match default.filter (· ∉ symbols) with
        | some symbol => .error (.unknownDefaultSymbol name symbol)
        | none => .ok (.enum ⟨if name.isEmpty then ctx.field else name, symbols, default⟩)

/-- A union of types whose own unions are spliced into it. -/
def ofUnion (types : List Descriptor) : Except ConfigurationFault Descriptor :=
  let members := types.flatMap spliced
  match repeated? (members.map identity) with
  | some identity => .error (.repeatedMember identity)
  | none => .ok (.union members)

mutual

/-- The type that a declared type becomes. -/
def ofDeclared (ctx : FieldSite) : DeclaredType → Except ConfigurationFault Descriptor
  | .boolean => .ok (.primitive .boolean)
  | .int32 => .ok (.primitive .int32)
  | .int64 => .ok (.primitive .int64)
  | .float32 => .ok (.primitive .float32)
  | .float64 => .ok (.primitive .float64)
  | .bytes => .ok (.primitive .bytes)
  | .string => .ok (.primitive .string)
  | .null => .ok (.primitive .null)
  | .date => .ok (.logical .date)
  | .timeMillis => .ok (.logical .timeMillis)
  | .timeMicros => .ok (.logical .timeMicros)
  | .timestampMillis => .ok (.logical .timestampMillis)
  | .timestampMicros => .ok (.logical .timestampMicros)
  | .uuid => .ok (.logical .uuid)
  | .decimal => ofDecimal ctx.attributes
  | .fixed => ofFixed ctx
  | .enum name symbols default => ofEnum ctx name symbols default
  | .list items => (ofDeclared ctx items).map .array
  | .tuple items => (ofDeclared ctx items).map .array
  | .dict values => (ofDeclared ctx values).map .map
  | .union [] => .error .emptyUnion
  | .union (t :: rest) => do
      let first ← ofDeclared ctx t
      ofUnion (first :: (← ofDeclaredList ctx rest))
  | .optional inner => (ofDeclared ctx inner).map asOptional
  | .record name => if name.isEmpty then .error .emptyReference else .ok (.reference name)
  | .self => .ok (.reference ctx.record)

/-- The types that declared types become. -/
def ofDeclaredList (ctx : FieldSite) :
    List DeclaredType → Except ConfigurationFault (List Descriptor)
  | [] => .ok []
  | t :: rest => do
      let d ← ofDeclared ctx t
      return d :: (← ofDeclaredList ctx rest)

end

/-- What is spliced into a union are the alternatives of the type, if an optional type in it wraps
neither null nor an optional type. -/
theorem spliced_eq_alternatives (d : Descriptor)
    (h : ∀ inner, d = .optional inner →
      inner.isOptional = false ∧ ∀ m ∈ inner.alternatives, !m.isNull) :
    spliced d = d.alternatives := by
  cases d with
  | optional inner =>
      obtain ⟨ho, hn⟩ := h inner rfl
      have hf : inner.alternatives.filter (fun m => !m.isNull) = inner.alternatives :=
        List.filter_eq_self.mpr hn
      rw [alternatives_optional, hf]
      cases inner <;> simp_all [spliced, alternatives, isOptional]
  | _ => simp [spliced, alternatives]

/-- The enumeration that a type is, or is optionally. -/
def enum? : Descriptor → Option Enumeration
  | .enum type => some type
  | .optional (.enum type) => some type
  | _ => none

end Descriptor

/-! ### Defaults -/

/-- The symbol that a value names. -/
def Value.symbol? : Value → Option String
  | .enum s => some s
  | .string s => some s
  | _ => none

/-- The default that a value is for a field of the type: for an enumeration a symbol or a text has
to be one of its symbols, and becomes that symbol. -/
def Descriptor.settledDefault (type : Descriptor) (v : Value) : Except ConfigurationFault Value :=
  match type.enum?, v.symbol? with
  | some e, some s => if s ∈ e.symbols then .ok (.enum s) else .error (.defaultNotSymbol e.name s)
  | _, _ => .ok v

/-- The type of a field with a default: a null default makes a type optional that has no null. -/
def Descriptor.withDefault (type : Descriptor) (default : Option Value) : Descriptor :=
  match default with
  | some .null => if type.hasAlternatives || type.isNull then type else .optional type
  | _ => type

/-- The type and the default of a declared field. -/
def DeclaredField.typeAndDefault (record : String) (d : DeclaredField) :
    Except ConfigurationFault (Descriptor × Option Value) := do
  let settled ← Descriptor.ofDeclared ⟨record, d.name, d.attributes⟩ d.type
  let default := d.default.map DeclaredDefault.toValue
  let type := settled.withDefault default
  match default with
  | none => return (type, none)
  | some v => return (type, some (← type.settledDefault v))

/-! ### Fields and records -/

/-- The field that a declared field becomes. -/
def Field.ofDeclaration (record : String) (order : Nat) (d : DeclaredField) : Except Error Field :=
  match d.typeAndDefault record with
  | .error fault => .error (.configuration record (some d.name) fault)
  | .ok (type, default) =>
      .ok ⟨d.name, type, default, order, d.attributes.doc, d.attributes.aliases⟩

/-- The fields that declared fields become, after fields with the names `seen`. -/
def Field.ofDeclarations (record : String) (seen : List String) :
    List DeclaredField → Except Error (List Field)
  | [] => .ok []
  | d :: rest => do
      if d.name ∈ seen then .error (.configuration record (some d.name) .duplicateField)
      else
        let field ← Field.ofDeclaration record seen.length d
        return field :: (← Field.ofDeclarations record (d.name :: seen) rest)

/-- The record that a declared record becomes. -/
def Record.ofDeclaration (d : DeclaredRecord) : Except Error Record :=
  if d.name.isEmpty then .error (.configuration "<unnamed>" none .emptyRecordName)
  else (Field.ofDeclarations d.name [] d.fields).map fun fields =>
    ⟨d.name, d.space, d.doc, d.aliases, fields⟩

/-- A record keeps the name of its declaration. -/
theorem Record.name_of_ofDeclaration {d : DeclaredRecord} {r : Record}
    (h : Record.ofDeclaration d = .ok r) : r.name = d.name := by
  unfold Record.ofDeclaration at h
  split at h
  · simp at h
  · cases hf : Field.ofDeclarations d.name [] d.fields with
    | error e => simp [hf, Except.map] at h
    | ok fields =>
        simp only [hf, Except.map, Except.ok.injEq] at h
        rw [← h]

end RecordModel
