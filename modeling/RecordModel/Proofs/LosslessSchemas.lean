/-
**What is lost in a written schema.**

A schema is written with everything that it says: docs, other names, name spaces, the default symbol
of an enumeration, the parameters of a decimal, and the defaults of fields, of which null is another
one than none.  One thing alone is lost.  A primitive type and a reference are both written as a
text, so that a reference which bears the name of a primitive type is not told from it.

Schemas are compared node by node.  Two written schemas are equal when the nodes at their tops say
the same and the schemas below them are written equally, and so for any other comparison of JSON
values that looks through objects by their keys.

Main definitions:

* `Schema.asRead` — the schema with primitive types for the references that bear their names;
* `Schema.SameHead` — what two schemas say at the top is the same;
* `Schema.Alike` — they say the same throughout, with the defaults compared in a way of their own.

Main results:

* `Schema.toJson_asRead` — a schema is written like what is read for it;
* `Schema.rel_toJson_iff` — written schemas are compared at the top and below;
* `Schema.toJson_alike_iff` — **written schemas are compared like the schemas that are read**;
* `Schema.toJson_eq_iff` — **they are equal exactly when the schemas that are read are**.
-/

import Mathlib.Data.Int.CharZero
import RecordModel.Proofs.AlikeJson
import RecordModel.Proofs.WrittenNames

set_option relaxedAutoImplicit false
set_option autoImplicit false

namespace RecordModel

/-! ### Names of primitive types -/

/-- The primitive type of a name. -/
def Primitive.ofSchemaName? : String → Option Primitive
  | "null" => some .null
  | "boolean" => some .boolean
  | "int" => some .int32
  | "long" => some .int64
  | "float" => some .float32
  | "double" => some .float64
  | "bytes" => some .bytes
  | "string" => some .string
  | _ => none

theorem Primitive.ofSchemaName?_schemaName (kind : Primitive) :
    ofSchemaName? kind.schemaName = some kind := by
  cases kind <;> rfl

theorem Primitive.ofSchemaName?_eq_some_iff {name : String} {kind : Primitive} :
    ofSchemaName? name = some kind ↔ name = kind.schemaName := by
  constructor
  · intro h
    unfold ofSchemaName? at h
    split at h <;> cases h <;> rfl
  · rintro rfl
    exact ofSchemaName?_schemaName kind

theorem Primitive.schemaName_inj {kind kind' : Primitive} :
    kind.schemaName = kind'.schemaName ↔ kind = kind' := by
  rw [← ofSchemaName?_eq_some_iff, ofSchemaName?_schemaName, Option.some.injEq]

namespace Schema

/-! ### Schemas as they are read -/

mutual

/-- The schema with primitive types for the references that bear their names. -/
def asRead : Schema → Schema
  | .record ⟨name, space, doc, aliases, fields⟩ =>
      .record ⟨name, space, doc, aliases, fieldsAsRead fields⟩
  | .enum type => .enum type
  | .fixed type => .fixed type
  | .array items => .array (asRead items)
  | .map values => .map (asRead values)
  | .union members => .union (membersAsRead members)
  | .logical kind => .logical kind
  | .primitive kind => .primitive kind
  | .reference fullName =>
      match Primitive.ofSchemaName? fullName with
      | some kind => .primitive kind
      | none => .reference fullName

/-- The members of a union as they are read. -/
def membersAsRead : List Schema → List Schema
  | [] => []
  | m :: rest => asRead m :: membersAsRead rest

/-- The fields of a record as they are read. -/
def fieldsAsRead : List (FieldSchema Schema) → List (FieldSchema Schema)
  | [] => []
  | ⟨name, type, default, doc, aliases⟩ :: rest =>
      ⟨name, asRead type, default, doc, aliases⟩ :: fieldsAsRead rest

end

theorem membersAsRead_eq_map (members : List Schema) :
    membersAsRead members = members.map asRead := by
  induction members with
  | nil => simp [membersAsRead]
  | cons m rest ih => simp [membersAsRead, ih]

theorem map_type_fieldsAsRead (fields : List (FieldSchema Schema)) :
    (fieldsAsRead fields).map (·.type) = fields.map fun f => asRead f.type := by
  induction fields with
  | nil => simp [fieldsAsRead]
  | cons f rest ih => simp [fieldsAsRead, ih]

/-- Below what is read are the schemas that are read. -/
theorem children_asRead (n : Schema) : n.asRead.children = n.children.map asRead := by
  cases n with
  | record r =>
      rw [asRead, children, children, map_type_fieldsAsRead, List.map_map]
      rfl
  | union members => rw [asRead, children, children, membersAsRead_eq_map]
  | reference fullName =>
      rw [asRead]
      split <;> rfl
  | _ =>
      rw [asRead]
      rfl

/-- No reference that is read bears the name of a primitive type. -/
theorem ofSchemaName?_of_asRead {n : Schema} {fullName : String}
    (h : n.asRead = .reference fullName) : Primitive.ofSchemaName? fullName = none := by
  cases n with
  | reference name =>
      rw [asRead] at h
      split at h
      · cases h
      · rename_i hnone
        cases h
        exact hnone
  | _ =>
      rw [asRead] at h
      cases h

mutual

/-- **A schema is written like what is read for it.** -/
theorem toJson_asRead (n : Schema) : n.asRead.toJson = n.toJson := by
  cases n with
  | record r =>
      obtain ⟨name, space, doc, aliases, fields⟩ := r
      rw [asRead, toJson, toJson, fieldsToJson_asRead fields]
  | array items => rw [asRead, toJson, toJson, toJson_asRead items]
  | map values => rw [asRead, toJson, toJson, toJson_asRead values]
  | union members => rw [asRead, toJson, toJson, membersToJson_asRead members]
  | reference fullName =>
      rw [asRead]
      split
      · rename_i kind hkind
        rw [toJson, toJson, Primitive.ofSchemaName?_eq_some_iff.mp hkind]
      · rfl
  | _ => rw [asRead]

theorem membersToJson_asRead (members : List Schema) :
    membersToJson (membersAsRead members) = membersToJson members := by
  cases members with
  | nil => rw [membersAsRead]
  | cons m rest =>
      rw [membersAsRead, membersToJson, membersToJson, toJson_asRead m, membersToJson_asRead rest]

theorem fieldsToJson_asRead (fields : List (FieldSchema Schema)) :
    fieldsToJson (fieldsAsRead fields) = fieldsToJson fields := by
  cases fields with
  | nil => rw [fieldsAsRead]
  | cons f rest =>
      obtain ⟨name, type, default, doc, aliases⟩ := f
      rw [fieldsAsRead, fieldsToJson, fieldsToJson, toJson_asRead type, fieldsToJson_asRead rest]

end

/-! ### Schemas that say the same -/

/-- The fields say the same besides their types; their defaults are related. -/
structure SameField (R : Json → Json → Prop) (f f' : FieldSchema Schema) : Prop where
  name : f.name = f'.name
  default : Option.Rel R f.default f'.default
  doc : f.doc = f'.doc
  aliases : f.aliases = f'.aliases

/-- The records say the same besides the types of their fields. -/
structure SameRecord (R : Json → Json → Prop) (r r' : RecordSchema Schema) : Prop where
  name : r.name = r'.name
  space : r.space = r'.space
  doc : r.doc = r'.doc
  aliases : r.aliases = r'.aliases
  fields : List.Forall₂ (SameField R) r.fields r'.fields

/-- What the schemas say at the top is the same; defaults there are related. -/
def SameHead (R : Json → Json → Prop) : Schema → Schema → Prop
  | .record r, .record r' => SameRecord R r r'
  | .enum type, .enum type' => type = type'
  | .fixed type, .fixed type' => type = type'
  | .array _, .array _ => True
  | .map _, .map _ => True
  | .union _, .union _ => True
  | .logical kind, .logical kind' => kind = kind'
  | .primitive kind, .primitive kind' => kind = kind'
  | .reference name, .reference name' => name = name'
  | _, _ => False

/-- The schemas say the same throughout; defaults are related. -/
inductive Alike (R : Json → Json → Prop) : Schema → Schema → Prop
  | intro {a b : Schema} : SameHead R a b → a.children.length = b.children.length →
      (∀ (i : Nat) (m m' : Schema), a.children[i]? = some m → b.children[i]? = some m' →
        Alike R m m') →
      Alike R a b

section

variable {R : Json → Json → Prop} {a b : Schema}

theorem alike_iff :
    Alike R a b ↔ SameHead R a b ∧ List.Forall₂ (Alike R) a.children b.children := by
  rw [forall₂_iff_getElem?]
  exact ⟨fun ⟨hhead, hlength, hbelow⟩ => ⟨hhead, hlength, hbelow⟩,
    fun ⟨hhead, hlength, hbelow⟩ => ⟨hhead, hlength, hbelow⟩⟩

end

/-- Records that say the same, with the same types and the same defaults, are equal. -/
theorem SameRecord.eq {r r' : RecordSchema Schema} (h : SameRecord (· = ·) r r')
    (htypes : r.fields.map (·.type) = r'.fields.map (·.type)) : r = r' := by
  obtain ⟨name, space, doc, aliases, fields⟩ := r
  obtain ⟨name', space', doc', aliases', fields'⟩ := r'
  obtain ⟨rfl, rfl, rfl, rfl, hfields⟩ := h
  congr 1
  change List.Forall₂ _ fields fields' at hfields
  induction hfields with
  | nil => rfl
  | @cons f f' _ _ hf _ ih =>
      rw [List.map_cons, List.map_cons, List.cons.injEq] at htypes
      obtain ⟨n, type, default, doc, aliases⟩ := f
      obtain ⟨n', type', default', doc', aliases'⟩ := f'
      obtain ⟨hname, hdefault, hdoc, haliases⟩ := hf
      dsimp only at hname hdefault hdoc haliases htypes
      have hdefault : default = default' := by
        cases hdefault with
        | none => rfl
        | some h => exact congrArg some h
      rw [hname, htypes.1, hdefault, hdoc, haliases, ih htypes.2]

theorem SameField.refl (f : FieldSchema Schema) : SameField (· = ·) f f := by
  refine ⟨rfl, ?_, rfl, rfl⟩
  cases f.default with
  | none => exact .none
  | some j => exact .some rfl

theorem SameHead.refl (n : Schema) : SameHead (· = ·) n n := by
  cases n with
  | record r => exact ⟨rfl, rfl, rfl, rfl, List.forall₂_same.mpr fun f _ => SameField.refl f⟩
  | _ => first | exact rfl | trivial

/-- Schemas that say the same at the top and are equal below are equal. -/
theorem SameHead.eq {a b : Schema} (h : SameHead (· = ·) a b) (hchildren : a.children = b.children) :
    a = b := by
  cases a with
  | record r =>
      cases b with
      | record r' => exact congrArg _ (SameRecord.eq h hchildren)
      | _ => cases h
  | array items =>
      cases b with
      | array items' => exact congrArg _ (List.singleton_inj.mp hchildren)
      | _ => cases h
  | map values =>
      cases b with
      | map values' => exact congrArg _ (List.singleton_inj.mp hchildren)
      | _ => cases h
  | union members =>
      cases b with
      | union members' => exact congrArg _ hchildren
      | _ => cases h
  | _ =>
      cases b <;> cases h
      rfl

/-- **With equal defaults the schemas that say the same throughout are the equal ones.** -/
theorem alike_eq_iff {a b : Schema} : Alike (· = ·) a b ↔ a = b := by
  constructor
  · intro h
    induction h with
    | @intro a b hhead hlength _ ih =>
        refine hhead.eq ?_
        rw [← List.forall₂_eq_eq_eq, forall₂_iff_getElem?]
        exact ⟨hlength, ih⟩
  · rintro rfl
    induction a using induction_children with
    | h n ih => exact alike_iff.mpr ⟨SameHead.refl n, List.forall₂_same.mpr ih⟩

/-! ### What is written at the top -/

/-- The other names of a type or a field as the value of a member. -/
def aliasValue (aliases : List String) : Option Json :=
  if aliases.isEmpty then none else some (strings aliases)

/-- The possible members of the object that is written for a record. -/
def recordLayout (r : RecordSchema Schema) : List (String × Option Json) :=
  [("type", some (.string "record")), ("name", some (.string r.name)),
    ("namespace", r.space.map .string), ("doc", r.doc.map .string),
    ("aliases", aliasValue r.aliases), ("fields", some (.array (fieldsToJson r.fields)))]

/-- The possible members of the object that is written for a field. -/
def fieldLayout (f : FieldSchema Schema) : List (String × Option Json) :=
  [("name", some (.string f.name)), ("type", some f.type.toJson), ("default", f.default),
    ("doc", f.doc.map .string), ("aliases", aliasValue f.aliases)]

/-- The possible members of the object that is written for an enumeration. -/
def enumLayout (type : Enumeration) : List (String × Option Json) :=
  [("type", some (.string "enum")), ("name", some (.string type.name)),
    ("symbols", some (strings type.symbols)), ("default", type.default.map .string)]

/-- The possible members of the object that is written for a logical type. -/
def logicalLayout (kind : Logical) : List (String × Option Json) :=
  [("type", some (.string kind.carrier.schemaName)), ("logicalType", some (.string kind.name))] ++
    match kind with
    | .decimal precision scale =>
        [("precision", some (.integer precision)), ("scale", some (.integer scale))]
    | _ => [("precision", none), ("scale", none)]

open Json (attributes)

theorem toJson_record_eq (r : RecordSchema Schema) :
    toJson (.record r) = .object (attributes (recordLayout r)) := by
  obtain ⟨name, space, doc, aliases, fields⟩ := r
  cases space <;> cases doc <;> cases aliases <;>
    simp [toJson, recordLayout, attributes, optionalMember, aliasMember, aliasValue]

theorem fieldsToJson_eq_map (fields : List (FieldSchema Schema)) :
    fieldsToJson fields = fields.map fun f => .object (attributes (fieldLayout f)) := by
  induction fields with
  | nil => simp [fieldsToJson]
  | cons f rest ih =>
      obtain ⟨name, type, default, doc, aliases⟩ := f
      rw [fieldsToJson, ih, List.map_cons]
      cases default <;> cases doc <;> cases aliases <;>
        simp [fieldLayout, attributes, optionalMember, aliasMember, aliasValue]

theorem toJson_enum_eq (type : Enumeration) :
    toJson (.enum type) = .object (attributes (enumLayout type)) := by
  obtain ⟨name, symbols, default⟩ := type
  cases default <;> simp [toJson, enumLayout, attributes, optionalMember]

theorem toJson_logical_eq (kind : Logical) :
    toJson (.logical kind) = .object (attributes (logicalLayout kind)) := by
  rw [toJson]
  cases kind <;> rfl

theorem keys_logicalLayout (kind : Logical) :
    Keyed.keys (logicalLayout kind) = ["type", "logicalType", "precision", "scale"] := by
  cases kind <;> rfl

/-! ### The kind of a written schema -/

/-- What is written for the kind of a schema: the text of its type for an object, if that is not the
carrier of a logical type. -/
def kindWritten : Json → String
  | .string _ => "name"
  | .array _ => "union"
  | .object members =>
      match (Json.object members).text? "type" with
      | some "record" => "record"
      | some "enum" => "enum"
      | some "fixed" => "fixed"
      | some "array" => "array"
      | some "map" => "map"
      | _ => "logical"
  | _ => ""

/-- The kind of a schema. -/
def kind : Schema → String
  | .record _ => "record"
  | .enum _ => "enum"
  | .fixed _ => "fixed"
  | .array _ => "array"
  | .map _ => "map"
  | .union _ => "union"
  | .logical _ => "logical"
  | .primitive _ => "name"
  | .reference _ => "name"

theorem SameHead.kind_eq {R : Json → Json → Prop} {a b : Schema} (h : SameHead R a b) :
    a.kind = b.kind := by
  cases a <;> cases b <;> first | rfl | cases h

theorem kindWritten_toJson (n : Schema) : kindWritten n.toJson = n.kind := by
  cases n with
  | logical kind =>
      rw [toJson]
      cases kind <;> rfl
  | _ =>
      rw [toJson]
      rfl

section

variable {R : Json → Json → Prop} (hR : Json.Comparison R)

include hR

/-- Objects that are compared have the same texts. -/
theorem text?_eq {ms : List (String × Json)} {j : Json} (h : R (.object ms) j) (key : String) :
    (Json.object ms).text? key = j.text? key := by
  obtain ⟨ms', rfl, hvalues⟩ := hR.get? h
  have hvalue := hvalues key
  rw [Json.text?, Json.text?, Json.get?, Json.get?]
  cases hv : Keyed.get? key ms with
  | none =>
      rw [hv] at hvalue
      cases hv' : Keyed.get? key ms' with
      | none => rfl
      | some j' => rw [hv'] at hvalue; cases hvalue
  | some j =>
      cases hv' : Keyed.get? key ms' with
      | none => rw [hv, hv'] at hvalue; cases hvalue
      | some j' =>
          rw [hv, hv', Option.rel_some_some] at hvalue
          cases j with
          | string s => rw [hR.string.mp hvalue]
          | _ =>
              cases j' with
              | string s => cases hR.string_right.mp hvalue
              | _ => rfl

/-- Written schemas that are compared are of one kind. -/
theorem kind_eq {a b : Schema} (h : R a.toJson b.toJson) : a.kind = b.kind := by
  have hkind : ∀ {j j' : Json}, R j j' → kindWritten j ≠ "" → kindWritten j = kindWritten j' := by
    intro j j' h hj
    cases j with
    | string s => rw [hR.string.mp h]
    | array items =>
        obtain ⟨_, rfl, -⟩ := hR.array.mp h
        rfl
    | object ms =>
        have htext := text?_eq hR h "type"
        obtain ⟨ms', rfl, -⟩ := hR.get? h
        rw [kindWritten, kindWritten, htext]
    | _ => exact absurd rfl hj
  rw [← kindWritten_toJson, ← kindWritten_toJson]
  refine hkind h ?_
  rw [kindWritten_toJson]
  cases a <;> simp [kind]

theorem rel_aliasValue_iff {as bs : List String} :
    Option.Rel R (aliasValue as) (aliasValue bs) ↔ as = bs := by
  cases as with
  | nil =>
      cases bs with
      | nil => simp [aliasValue]
      | cons b bs => exact iff_of_false nofun nofun
  | cons a as =>
      cases bs with
      | nil => exact iff_of_false nofun nofun
      | cons b bs =>
          change Option.Rel R (some (strings (a :: as))) (some (strings (b :: bs))) ↔ _
          rw [Option.rel_some_some, strings, strings, hR.array]
          simp only [Json.array.injEq, exists_eq_left', hR.forall₂_string_iff]

/-- Written fields are compared by what is said of the fields, and by their types. -/
theorem rel_fieldLayout_iff {f f' : FieldSchema Schema} :
    R (.object (attributes (fieldLayout f))) (.object (attributes (fieldLayout f'))) ↔
      SameField R f f' ∧ R f.type.toJson f'.type.toJson := by
  rw [hR.object_attributes_iff (by rfl) (by simp [fieldLayout, Keyed.keys])]
  simp only [fieldLayout, List.forall₂_cons, Keyed.EntryRel, Option.rel_some_some, hR.string,
    hR.optional_string_iff, rel_aliasValue_iff hR, Json.string.injEq, true_and, List.Forall₂.nil,
    and_true]
  constructor
  · rintro ⟨hname, htype, hdefault, hdoc, haliases⟩
    exact ⟨⟨hname.symm, hdefault, hdoc, haliases⟩, htype⟩
  · rintro ⟨⟨hname, hdefault, hdoc, haliases⟩, htype⟩
    exact ⟨hname.symm, htype, hdefault, hdoc, haliases⟩

/-- Written records are compared by what is said of the records, and by the types of the fields. -/
theorem rel_record_iff {r r' : RecordSchema Schema} :
    R (toJson (.record r)) (toJson (.record r')) ↔ SameRecord R r r' ∧
      List.Forall₂ R ((children (.record r)).map toJson) ((children (.record r')).map toJson) := by
  have hfields : List.Forall₂ R (fieldsToJson r.fields) (fieldsToJson r'.fields) ↔
      List.Forall₂ (SameField R) r.fields r'.fields ∧
        List.Forall₂ R ((children (.record r)).map toJson) ((children (.record r')).map toJson) := by
    simp only [fieldsToJson_eq_map, children, List.map_map, List.forall₂_map_left_iff,
      List.forall₂_map_right_iff, rel_fieldLayout_iff hR, Function.comp_apply, forall₂_and_iff]
  rw [toJson_record_eq, toJson_record_eq,
    hR.object_attributes_iff (by rfl) (by simp [recordLayout, Keyed.keys])]
  simp only [recordLayout, List.forall₂_cons, Keyed.EntryRel, Option.rel_some_some, hR.string,
    hR.optional_string_iff, rel_aliasValue_iff hR, hR.array, Json.string.injEq, Json.array.injEq,
    exists_eq_left', hfields, true_and, List.Forall₂.nil, and_true]
  constructor
  · rintro ⟨hname, hspace, hdoc, haliases, hfields, hchildren⟩
    exact ⟨⟨hname.symm, hspace, hdoc, haliases, hfields⟩, hchildren⟩
  · rintro ⟨⟨hname, hspace, hdoc, haliases, hfields⟩, hchildren⟩
    exact ⟨hname.symm, hspace, hdoc, haliases, hfields, hchildren⟩

theorem rel_enum_iff {type type' : Enumeration} :
    R (toJson (.enum type)) (toJson (.enum type')) ↔ type = type' := by
  rw [toJson_enum_eq, toJson_enum_eq,
    hR.object_attributes_iff (by rfl) (by simp [enumLayout, Keyed.keys])]
  obtain ⟨name, symbols, default⟩ := type
  obtain ⟨name', symbols', default'⟩ := type'
  simp only [enumLayout, strings, List.forall₂_cons, Keyed.EntryRel, Option.rel_some_some, hR.string,
    hR.array, hR.forall₂_string_iff, hR.optional_string_iff, Json.string.injEq, Json.array.injEq,
    exists_eq_left', true_and, List.Forall₂.nil, and_true, Enumeration.mk.injEq]
  rw [@eq_comm _ name']

theorem rel_fixed_iff {type type' : FixedBytes} :
    R (toJson (.fixed type)) (toJson (.fixed type')) ↔ type = type' := by
  obtain ⟨name, size⟩ := type
  obtain ⟨name', size'⟩ := type'
  have hlayout : ∀ (name : String) (size : Nat), toJson (.fixed ⟨name, size⟩) =
      .object (attributes [("type", some (.string "fixed")), ("name", some (.string name)),
        ("size", some (.integer size))]) := fun _ _ => by rw [toJson]; rfl
  rw [hlayout, hlayout, hR.object_attributes_iff (by rfl) (by simp [Keyed.keys])]
  simp only [List.forall₂_cons, Keyed.EntryRel, Option.rel_some_some, hR.string, hR.integer,
    Json.string.injEq, true_and, List.Forall₂.nil, and_true, FixedBytes.mk.injEq, Int.natCast_inj]
  rw [@eq_comm _ name']

theorem rel_array_iff {items items' : Schema} :
    R (toJson (.array items)) (toJson (.array items')) ↔ R items.toJson items'.toJson := by
  have hlayout : ∀ items, toJson (.array items) = .object
      (attributes [("type", some (.string "array")), ("items", some items.toJson)]) :=
    fun _ => by rw [toJson]; rfl
  rw [hlayout, hlayout, hR.object_attributes_iff (by rfl) (by simp [Keyed.keys])]
  simp [Keyed.EntryRel, hR.string]

theorem rel_map_iff {values values' : Schema} :
    R (toJson (.map values)) (toJson (.map values')) ↔ R values.toJson values'.toJson := by
  have hlayout : ∀ values, toJson (.map values) = .object
      (attributes [("type", some (.string "map")), ("values", some values.toJson)]) :=
    fun _ => by rw [toJson]; rfl
  rw [hlayout, hlayout, hR.object_attributes_iff (by rfl) (by simp [Keyed.keys])]
  simp [Keyed.EntryRel, hR.string]

theorem rel_logical_iff {kind kind' : Logical} :
    R (toJson (.logical kind)) (toJson (.logical kind')) ↔ kind = kind' := by
  rw [toJson_logical_eq, toJson_logical_eq, hR.object_attributes_iff
    (by rw [keys_logicalLayout, keys_logicalLayout]) (by simp [keys_logicalLayout])]
  cases kind <;> cases kind' <;>
    simp [logicalLayout, Keyed.EntryRel, hR.string, hR.integer, Logical.name, Logical.carrier,
      Primitive.schemaName]

/-- **Written schemas are compared at the top and below**, if no references in them bear the names
of primitive types. -/
theorem rel_toJson_iff {a b : Schema}
    (ha : ∀ name, a = .reference name → Primitive.ofSchemaName? name = none)
    (hb : ∀ name, b = .reference name → Primitive.ofSchemaName? name = none) :
    R a.toJson b.toJson ↔
      SameHead R a b ∧ List.Forall₂ R (a.children.map toJson) (b.children.map toJson) := by
  by_cases hkind : a.kind = b.kind
  · cases a with
    | record r =>
        cases b with
        | record r' => exact rel_record_iff hR
        | _ => exact absurd hkind (by simp [kind])
    | enum type =>
        cases b with
        | enum type' => simp [rel_enum_iff hR, SameHead, children]
        | _ => exact absurd hkind (by simp [kind])
    | fixed type =>
        cases b with
        | fixed type' => simp [rel_fixed_iff hR, SameHead, children]
        | _ => exact absurd hkind (by simp [kind])
    | array items =>
        cases b with
        | array items' => simp [rel_array_iff hR, SameHead, children]
        | _ => exact absurd hkind (by simp [kind])
    | map values =>
        cases b with
        | map values' => simp [rel_map_iff hR, SameHead, children]
        | _ => exact absurd hkind (by simp [kind])
    | union members =>
        cases b with
        | union members' => simp [toJson_union, hR.array, SameHead, children]
        | _ => exact absurd hkind (by simp [kind])
    | logical kind =>
        cases b with
        | logical kind' => simp [rel_logical_iff hR, SameHead, children]
        | _ => exact absurd hkind (by simp [Schema.kind])
    | primitive kind =>
        cases b with
        | primitive kind' =>
            simp [toJson, hR.string, SameHead, children, Primitive.schemaName_inj, eq_comm]
        | reference name =>
            refine iff_of_false (fun h => ?_) fun h => h.1
            have hname : name = kind.schemaName := by simpa [toJson, hR.string] using h
            exact absurd (hb name rfl) (by simp [hname, Primitive.ofSchemaName?_schemaName])
        | _ => exact absurd hkind (by simp [Schema.kind])
    | reference name =>
        cases b with
        | primitive kind =>
            refine iff_of_false (fun h => ?_) fun h => h.1
            have hname : kind.schemaName = name := by simpa [toJson, hR.string] using h
            exact absurd (ha name rfl) (by simp [← hname, Primitive.ofSchemaName?_schemaName])
        | reference name' => simp [toJson, hR.string, SameHead, children, eq_comm]
        | _ => exact absurd hkind (by simp [kind])
  · exact iff_of_false (fun h => hkind (kind_eq hR h)) fun h => hkind h.1.kind_eq

/-- **Written schemas are compared like the schemas that are read.** -/
theorem toJson_alike_iff (a b : Schema) : R a.toJson b.toJson ↔ Alike R a.asRead b.asRead := by
  induction a using induction_children generalizing b with
  | h a ih =>
      have hbelow : List.Forall₂ R (a.asRead.children.map toJson) (b.asRead.children.map toJson) ↔
          List.Forall₂ (Alike R) a.asRead.children b.asRead.children := by
        simp only [children_asRead, List.forall₂_map_left_iff, List.forall₂_map_right_iff,
          toJson_asRead]
        constructor
        · exact fun h => forall₂_imp_of_mem h fun m hm m' _ => (ih m hm m').mp
        · exact fun h => forall₂_imp_of_mem h fun m hm m' _ => (ih m hm m').mpr
      rw [← toJson_asRead a, ← toJson_asRead b, alike_iff, ← hbelow]
      exact rel_toJson_iff hR (fun _ => ofSchemaName?_of_asRead) fun _ => ofSchemaName?_of_asRead

end

/-- **Written schemas are equal exactly when the schemas that are read are**, and so if the order of
the members of objects does not matter, in the defaults of the schemas and in what is written,
however numbers are compared there. -/
theorem toJson_eq_iff (a b : Schema) :
    (a.toJson = b.toJson ↔ a.asRead = b.asRead) ∧
      ∀ same : Binary64 → Binary64 → Prop,
        (Json.Alike same a.toJson b.toJson ↔ Alike (Json.Alike same) a.asRead b.asRead) := by
  refine ⟨?_, fun same => toJson_alike_iff (Json.comparison_alike same) a b⟩
  rw [toJson_alike_iff Json.comparison_eq a b, alike_eq_iff]

example : (union [.reference "int", .reference "Int"]).asRead =
    union [.primitive .int32, .reference "Int"] := rfl

end Schema

end RecordModel
