/-
**Names in written schemas.**

Whoever reads a written schema reads its names by three rules.  A text that is the name of a
primitive type stands for that; a name with a point in it is a full name; any other name lies in the
name space in force where it stands.  A record that states a name space sets it for the types below
it.

A definition is written with its bare name and a reference with the full name.  So a definition is
read as what the schema defines, unless its bare name has a point.  A reference is read as the full
name that it states only if it has a point or stands where no name space is in force.  A type
outside any name space that is referred to from inside one is therefore lost to the reader, and so
is one that bears the name of a primitive type.

Main definitions:

* `fullNameIn`, `readName` — the rules for names;
* `Json.typesBelow`, `Json.spaceBelow`, `Json.definedName?` — the types in a written type, the name
  space in force there, and the full name that is read for a definition;
* `Json.typeAt?`, `Json.definedNameAt?` — the same at the end of a path;
* `Schema.NamesReadable` — every name in the written schema is read as it is meant;
* `ReadsBack` — when a reference is read as the definition of a bare name.

Main results:

* `Schema.typeAt?_toJson` — the written types stand at the places of the schema;
* `fullNameIn_injective` — full names are distinct for distinct bare names without points;
* `readName_eq_iff` — which references are read as their definitions;
* `Schema.ofRecord_readNames` — **how the names of a written schema are read**;
* `Schema.ofUser_not_namesReadable` — **they are not always read as they are meant**.
-/

import Mathlib.Data.List.TakeWhile
import RecordModel.Proofs.NamedOnce

set_option relaxedAutoImplicit false
set_option autoImplicit false

namespace RecordModel

/-! ### Rules for names -/

/-- The names of the primitive types. -/
def primitiveNames : List String :=
  ["null", "boolean", "int", "long", "float", "double", "bytes", "string"]

/-- Whether a name has a point. -/
def hasPoint (name : String) : Bool := name.toList.contains '.'

/-- The full name that a name stands for where a name space is in force. -/
def fullNameIn (space : Option String) (name : String) : String :=
  if hasPoint name then name else Record.qualify space name

/-- What a name in the place of a type stands for. -/
inductive ReadName where
  | primitive (name : String)
  | named (fullName : String)
deriving DecidableEq

/-- How a name in the place of a type is read. -/
def readName (space : Option String) (name : String) : ReadName :=
  if name ∈ primitiveNames then .primitive name else .named (fullNameIn space name)

/-! ### Written types -/

namespace Json

/-- The text of a member of an object. -/
def text? (key : String) (j : Json) : Option String :=
  match j.get? key with
  | some (.string s) => some s
  | _ => none

/-- The items of a member of an object. -/
def items (key : String) (j : Json) : List Json :=
  match j.get? key with
  | some (.array items) => items
  | _ => []

/-- The written types right below a written type. -/
def typesBelow (j : Json) : List Json :=
  match j with
  | .array members => members
  | _ =>
      match j.text? "type" with
      | some "record" => (j.items "fields").filterMap (get? "type")
      | some "array" => (j.get? "items").toList
      | some "map" => (j.get? "values").toList
      | _ => []

/-- The name space in force below a written type: the one that a record states, else the one around
it. -/
def spaceBelow (space : Option String) (j : Json) : Option String :=
  if j.text? "type" = some "record" then (j.text? "namespace").or space else space

/-- The full name that is read for the definition of a named type. -/
def definedName? (space : Option String) (j : Json) : Option String :=
  match j.text? "type" with
  | some "record" => (j.text? "name").map (fullNameIn (j.spaceBelow space))
  | some "enum" => (j.text? "name").map (fullNameIn space)
  | some "fixed" => (j.text? "name").map (fullNameIn space)
  | _ => none

/-- The written type at the end of a path, and the name space in force there. -/
def typeAt? : Option String → Json → List Nat → Option (Option String × Json)
  | space, j, [] => some (space, j)
  | space, j, i :: path =>
      match j.typesBelow[i]? with
      | some below => typeAt? (j.spaceBelow space) below path
      | none => none

/-- The full name that is read for the definition at the end of a path. -/
def definedNameAt? (space : Option String) (j : Json) (path : List Nat) : Option String :=
  (j.typeAt? space path).bind fun p => p.2.definedName? p.1

theorem typeAt?_cons (space : Option String) (j : Json) (i : Nat) (path : List Nat) :
    j.typeAt? space (i :: path) =
      j.typesBelow[i]?.bind fun below => below.typeAt? (j.spaceBelow space) path := by
  rw [typeAt?]
  cases j.typesBelow[i]? <;> rfl

end Json

namespace Schema

/-! ### Schemas and what is written for them -/

/-- The members that are written for a record. -/
def recordMembers (r : RecordSchema Schema) : List (String × Json) :=
  [("type", .string "record"), ("name", .string r.name)] ++
    optionalMember "namespace" (r.space.map .string) ++
    optionalMember "doc" (r.doc.map .string) ++
    aliasMember r.aliases ++
    [("fields", .array (fieldsToJson r.fields))]

theorem toJson_record (r : RecordSchema Schema) :
    toJson (.record r) = .object (recordMembers r) := by
  rw [toJson, recordMembers]

theorem filterMap_fieldsToJson (fields : List (FieldSchema Schema)) :
    (fieldsToJson fields).filterMap (Json.get? "type") = fields.map fun f => f.type.toJson := by
  induction fields with
  | nil => simp [fieldsToJson]
  | cons f rest ih => simp [fieldsToJson, Json.get?, Keyed.get?_cons, ih]

section

variable (r : RecordSchema Schema)

theorem text?_type_recordMembers :
    (Json.object (recordMembers r)).text? "type" = some "record" := by
  simp [recordMembers, Json.text?, Json.get?, Keyed.get?_cons]

theorem text?_name_recordMembers : (Json.object (recordMembers r)).text? "name" = some r.name := by
  simp [recordMembers, Json.text?, Json.get?, Keyed.get?_cons]

theorem text?_namespace_recordMembers :
    (Json.object (recordMembers r)).text? "namespace" = r.space := by
  cases hs : r.space <;> cases hd : r.doc <;> by_cases ha : r.aliases.isEmpty = true <;>
    simp [recordMembers, Json.text?, Json.get?, Keyed.get?_cons, optionalMember, aliasMember, hs,
      hd, ha]

theorem items_fields_recordMembers :
    (Json.object (recordMembers r)).items "fields" = fieldsToJson r.fields := by
  cases hs : r.space <;> cases hd : r.doc <;> by_cases ha : r.aliases.isEmpty = true <;>
    simp [recordMembers, Json.items, Json.get?, Keyed.get?_cons, optionalMember, aliasMember, hs,
      hd, ha]

end

/-- Below a written schema are the schemas below it, as they are written. -/
theorem typesBelow_toJson (n : Schema) : n.toJson.typesBelow = n.children.map toJson := by
  cases n with
  | record r =>
      rw [toJson_record, Json.typesBelow, text?_type_recordMembers]
      · rw [items_fields_recordMembers, filterMap_fieldsToJson, children, List.map_map]
        rfl
      · intro items h
        cases h
  | union members =>
      rw [toJson_union]
      rfl
  | logical kind =>
      rw [toJson]
      cases kind <;> rfl
  | _ =>
      rw [toJson]
      rfl

/-- The name space that is read is the one in force. -/
theorem spaceBelow_toJson (space : Option String) (n : Schema) :
    n.toJson.spaceBelow space = n.inner space := by
  cases n with
  | record r =>
      rw [toJson_record, Json.spaceBelow, if_pos (text?_type_recordMembers r),
        text?_namespace_recordMembers]
      rfl
  | union members =>
      rw [toJson_union]
      rfl
  | logical kind =>
      rw [toJson]
      cases kind <;> rfl
  | _ =>
      rw [toJson]
      rfl

/-- A definition is read by its bare name. -/
theorem definedName?_toJson (space : Option String) (n : Schema) :
    n.toJson.definedName? space =
      (n.defines space).map fun d => fullNameIn (n.inner space) d.1 := by
  cases n with
  | record r =>
      rw [← spaceBelow_toJson, toJson_record, Json.definedName?, text?_type_recordMembers,
        text?_name_recordMembers]
      rfl
  | union members =>
      rw [toJson_union]
      rfl
  | logical kind =>
      rw [toJson]
      cases kind <;> rfl
  | _ =>
      rw [toJson]
      rfl

/-- **The written types stand at the places of the schema**, and the name space that is read there
is the one in force. -/
theorem typeAt?_toJson (space : Option String) (n : Schema) (path : List Nat) :
    n.toJson.typeAt? space path = (n.place? space path).map fun p => (p.1, p.2.toJson) := by
  induction path generalizing space n with
  | nil => rfl
  | cons i path ih =>
      rw [Json.typeAt?_cons, place?_cons, typesBelow_toJson, spaceBelow_toJson, List.getElem?_map]
      cases n.children[i]? with
      | none => rfl
      | some m => exact ih (n.inner space) m

theorem definedNameAt?_toJson (space : Option String) (n : Schema) (path : List Nat) :
    n.toJson.definedNameAt? space path = (n.place? space path).bind fun p =>
      (p.2.defines p.1).map fun d => fullNameIn (p.2.inner p.1) d.1 := by
  rw [Json.definedNameAt?, typeAt?_toJson]
  cases n.place? space path with
  | none => rfl
  | some p => exact definedName?_toJson p.1 p.2

end Schema

/-! ### Full names -/

/-- A name is itself, outside any name space, or has its name space before a point. -/
theorem qualify_cases (space : Option String) (name : String) :
    space.getD "" = "" ∧ Record.qualify space name = name ∨
      ∃ s, space = some s ∧ s ≠ "" ∧ Record.qualify space name = s ++ "." ++ name := by
  cases space with
  | none => exact Or.inl ⟨rfl, rfl⟩
  | some s =>
      by_cases hs : s = ""
      · subst hs
        exact Or.inl ⟨rfl, rfl⟩
      · refine Or.inr ⟨s, rfl, hs, ?_⟩
        rw [Record.qualify, if_neg (by simpa using hs)]

theorem hasPoint_append (s name : String) : hasPoint (s ++ "." ++ name) = true := by
  simp [hasPoint]

/-- Only outside any name space a name is its own full name. -/
theorem qualify_eq_self_iff (space : Option String) (name : String) :
    Record.qualify space name = name ↔ space.getD "" = "" := by
  rcases qualify_cases space name with ⟨hspace, hname⟩ | ⟨s, rfl, hs, hname⟩
  · simp [hspace, hname]
  · rw [hname]
    constructor
    · intro h
      have hlength := congrArg String.length h
      simp only [String.length_append] at hlength
      have hpoint : ".".length = 1 := rfl
      omega
    · intro h
      exact absurd h hs

theorem hasPoint_qualify {name : String} (space : Option String) (h : hasPoint name = true) :
    hasPoint (Record.qualify space name) = true := by
  rcases qualify_cases space name with ⟨-, hname⟩ | ⟨s, -, -, hname⟩
  · rwa [hname]
  · rw [hname]
    exact hasPoint_append s name

/-- What stands behind the last point of a full name is the bare name. -/
theorem takeWhile_qualify {name : String} (space : Option String) (h : hasPoint name = false) :
    (Record.qualify space name).toList.reverse.takeWhile (· ≠ '.') = name.toList.reverse := by
  have hname : ∀ c ∈ name.toList.reverse, decide (c ≠ '.') = true := by
    intro c hc
    have hmem : '.' ∉ name.toList := by simpa [hasPoint] using h
    exact decide_eq_true fun heq => hmem (heq ▸ List.mem_reverse.mp hc)
  rcases qualify_cases space name with ⟨-, hq⟩ | ⟨s, -, -, hq⟩
  · rw [hq]
    exact List.takeWhile_eq_self_iff.mpr hname
  · rw [hq, String.toList_append, String.toList_append, List.reverse_append, List.reverse_append,
      List.takeWhile_append_of_pos hname]
    simp

/-- **Full names are distinct for distinct bare names without points.** -/
theorem fullNameIn_injective {space space' : Option String} {name name' : String}
    (h : hasPoint name = false) (h' : hasPoint name' = false)
    (heq : fullNameIn space name = fullNameIn space' name') : name = name' := by
  simp only [fullNameIn, h, h', Bool.false_eq_true, if_false] at heq
  have hbare := takeWhile_qualify space h
  rw [heq, takeWhile_qualify space' h'] at hbare
  exact String.toList_injective (List.reverse_injective hbare.symm)

/-- A reference that states a full name is read as the definition of a bare name: it is not read as
a primitive type, and no name space is put before it that was not there. -/
def ReadsBack (space : Option String) (name full : String) : Prop :=
  full ∉ primitiveNames ∧
    if hasPoint name then full = name else hasPoint full = true ∨ space.getD "" = ""

/-- **Which references are read as their definitions**: the one stands where `space` is in force,
the other one where `space'` was. -/
theorem readName_eq_iff (space space' : Option String) (name : String) :
    readName space (Record.qualify space' name) = .named (fullNameIn space' name) ↔
      ReadsBack space name (Record.qualify space' name) := by
  unfold readName ReadsBack
  by_cases hprimitive : Record.qualify space' name ∈ primitiveNames
  · simp [hprimitive]
  · rw [if_neg hprimitive, ReadName.named.injEq]
    cases hpoint : hasPoint name with
    | true =>
        have hfull := hasPoint_qualify space' hpoint
        simp [fullNameIn, hpoint, hfull, hprimitive]
    | false =>
        simp only [fullNameIn, hpoint, hprimitive, not_false_eq_true, true_and, Bool.false_eq_true,
          if_false]
        cases hfull : hasPoint (Record.qualify space' name) with
        | true => simp
        | false => simp [qualify_eq_self_iff]

/-! ### Reading a schema -/

namespace Schema

section

variable {space : Option String} {T : Schema} {path : List Nat} {b : String} {d : NamedDefinition}

theorem fullName_of_defines {n : Schema} (h : n.defines space = some (b, d)) :
    d.fullName = Record.qualify (n.inner space) b := by
  cases n <;> cases h <;> rfl

theorem definedNameAt?_of_definesAt? (h : T.definesAt? space path = some (b, d)) :
    ∃ space', d.fullName = Record.qualify space' b ∧
      T.toJson.definedNameAt? space path = some (fullNameIn space' b) := by
  obtain ⟨⟨around, n⟩, hplace, hdefines⟩ := Option.bind_eq_some_iff.mp h
  refine ⟨n.inner around, fullName_of_defines hdefines, ?_⟩
  rw [definedNameAt?_toJson, hplace, Option.bind_some, hdefines]
  rfl

theorem exists_definesAt?_of_definedNameAt? {full : String}
    (h : T.toJson.definedNameAt? space path = some full) :
    ∃ b d space', T.definesAt? space path = some (b, d) ∧ full = fullNameIn space' b := by
  rw [definedNameAt?_toJson] at h
  obtain ⟨⟨around, n⟩, hplace, h⟩ := Option.bind_eq_some_iff.mp h
  obtain ⟨⟨b, d⟩, hdefines, hfull⟩ := Option.map_eq_some_iff.mp h
  refine ⟨b, d, n.inner around, ?_, hfull.symm⟩
  rw [definesAt?, hplace]
  exact hdefines

end

/-- Every name in what is written for the schema of a record is read as it is meant. -/
structure NamesReadable (answer : String → Except Error Record) (name : String) (T : Schema) :
    Prop where
  /-- No full name is read for two definitions. -/
  distinct : ∀ p q full, T.toJson.definedNameAt? none p = some full →
    T.toJson.definedNameAt? none q = some full → p = q
  /-- A reference is read as the full name of a definition before it, which is the one of the type
  that is named there. -/
  references : ∀ path, (∃ space full, T.place? none path = some (space, .reference full)) →
    ∃ space text full, T.toJson.typeAt? none path = some (space, .string text) ∧
      readName space text = .named full ∧
      ∃ d b type q defined, (Descriptor.reference name).at? answer path = some d ∧
        d.named? = some (b, type) ∧ q < path ∧
        T.definesAt? none q = some (b, ⟨defined, type⟩) ∧
        T.toJson.definedNameAt? none q = some full

section

variable {answer : String → Except Error Record} {name : String} {T : Schema}

/-- With bare names that have no points, no full name is read for two definitions. -/
theorem definedNameAt?_injective (hT : NamedOnce answer name T)
    (hpoints : ∀ path b d, T.definesAt? none path = some (b, d) → hasPoint b = false)
    {p q : List Nat} {full : String} (hp : T.toJson.definedNameAt? none p = some full)
    (hq : T.toJson.definedNameAt? none q = some full) : p = q := by
  obtain ⟨b, d, space, hd, hfull⟩ := exists_definesAt?_of_definedNameAt? hp
  obtain ⟨b', d', space', hd', hfull'⟩ := exists_definesAt?_of_definedNameAt? hq
  have hname := fullNameIn_injective (hpoints p b d hd) (hpoints q b' d' hd')
    (hfull.symm.trans hfull')
  exact hT.name_once p q _ _ hd hd' hname

/-- **A reference is written as it is stated, and is read as its definition exactly if the
conditions for that are met.** -/
theorem reference_readsBack (hT : NamedOnce answer name T) {path : List Nat}
    {space : Option String} {full : String}
    (hplace : T.place? none path = some (space, .reference full)) :
    T.toJson.typeAt? none path = some (space, .string full) ∧
      ∃ d b type q defined, (Descriptor.reference name).at? answer path = some d ∧
        d.named? = some (b, type) ∧ q < path ∧ T.definesAt? none q = some (b, ⟨full, type⟩) ∧
        T.toJson.definedNameAt? none q = some defined ∧
        (readName space full = .named defined ↔ ReadsBack space b full) := by
  refine ⟨?_, ?_⟩
  · rw [typeAt?_toJson, hplace, Option.map_some, toJson]
  · obtain ⟨d, b, type, hat, hnamed, q, hq, hdefines⟩ := hT.reference_eq path space full hplace
    obtain ⟨space', hfull, hread⟩ := definedNameAt?_of_definesAt? hdefines
    refine ⟨d, b, type, q, _, hat, hnamed, hq, hdefines, hread, ?_⟩
    dsimp only at hfull
    rw [hfull]
    exact readName_eq_iff space space' b

/-- **When the names are readable**: where no bare name has a point, exactly if no reference bears
the name of a primitive type, and each of them has a point or stands where no name space is in
force. -/
theorem namesReadable_iff (hT : NamedOnce answer name T)
    (hpoints : ∀ path b d, T.definesAt? none path = some (b, d) → hasPoint b = false) :
    NamesReadable answer name T ↔
      ∀ path space full, T.place? none path = some (space, .reference full) →
        full ∉ primitiveNames ∧ (hasPoint full = true ∨ space.getD "" = "") := by
  -- the condition for a reference whose bare name has no point
  have hcondition : ∀ {path space full b d}, T.definesAt? none path = some (b, d) →
      (ReadsBack space b full ↔
        full ∉ primitiveNames ∧ (hasPoint full = true ∨ space.getD "" = "")) := by
    intro path space full b d hdefines
    rw [ReadsBack, hpoints path b d hdefines]
    simp
  constructor
  · intro h path space full hplace
    obtain ⟨htype, d, b, type, q, defined, hat, hnamed, -, hdefines, hread, hiff⟩ :=
      reference_readsBack hT hplace
    obtain ⟨_, _, read, htype', hname, d', b', type', q', _, hat', hnamed', -, hdefines', hread'⟩ :=
      h.references path ⟨space, full, hplace⟩
    cases htype.symm.trans htype'
    cases hat.symm.trans hat'
    cases hnamed.symm.trans hnamed'
    -- the definition of the bare name is at one path, and one full name is read there
    cases hT.name_once q q' _ _ hdefines hdefines' rfl
    cases hread.symm.trans hread'
    exact (hcondition hdefines).mp (hiff.mp hname)
  · intro h
    refine ⟨fun p q full => definedNameAt?_injective hT hpoints, ?_⟩
    rintro path ⟨space, full, hplace⟩
    obtain ⟨htype, d, b, type, q, defined, hat, hnamed, hq, hdefines, hread, hiff⟩ :=
      reference_readsBack hT hplace
    have hback := (hcondition hdefines).mpr (h path space full hplace)
    exact ⟨space, full, defined, htype, hiff.mpr hback, d, b, type, q, full, hat, hnamed, hq,
      hdefines, hread⟩

end

/-- **How the names of a written schema are read.**  A reference is read as the definition that it
stands for exactly if its text is not the name of a primitive type and no name space is put before
it or left out.  Where no bare name has a point, all names are readable exactly if that holds of
every reference. -/
theorem ofRecord_readNames {r r' : Registry} (hr : r.Reached) {strict : Bool} {name : String}
    {T : Schema} (hrun : (ofRecord strict name).run r = (.ok T, r')) :
    (∀ path space full, T.place? none path = some (space, .reference full) →
      T.toJson.typeAt? none path = some (space, .string full) ∧
        ∃ d b type q defined, (Descriptor.reference name).at? r.answer path = some d ∧
          d.named? = some (b, type) ∧ q < path ∧ T.definesAt? none q = some (b, ⟨full, type⟩) ∧
          T.toJson.definedNameAt? none q = some defined ∧
          (readName space full = .named defined ↔ ReadsBack space b full)) ∧
    ((∀ path b d, T.definesAt? none path = some (b, d) → hasPoint b = false) →
      (NamesReadable r.answer name T ↔
        ∀ path space full, T.place? none path = some (space, .reference full) →
          full ∉ primitiveNames ∧ (hasPoint full = true ∨ space.getD "" = ""))) := by
  have hT : NamedOnce r.answer name T :=
    namedOnce_of_renders hr.settled (ofRecord_renders hr.settled hrun).2
  exact ⟨fun path space full => reference_readsBack hT, namesReadable_iff hT⟩

theorem ofLinks_readNames :
    linkRegistry.Reached ∧
      (∃ r', (ofRecord true "Link").run linkRegistry = (.ok ofLinks, r')) ∧
      NamesReadable linkRegistry.answer "Link" ofLinks := by
  have hrun : ∃ r', (ofRecord true "Link").run linkRegistry = (.ok ofLinks, r') :=
    ⟨_, by with_unfolding_all rfl⟩
  obtain ⟨r', hr'⟩ := hrun
  refine ⟨linkRegistry_reached, ⟨r', hr'⟩, ?_⟩
  obtain ⟨-, hiff⟩ := ofRecord_readNames linkRegistry_reached hr'
  refine (hiff fun path b d h => ?_).mpr fun path space full h => ?_
  · have hmem := (mem_definitions_iff _ _ _).mpr ⟨path, h⟩
    simp only [ofLinks, definitions_eq, defines, children, List.map_cons, List.map_nil,
      List.flatMap_cons, List.flatMap_nil, Option.toList_some, Option.toList_none,
      List.append_nil, List.mem_singleton] at hmem
    cases hmem
    decide
  · -- the only reference is the second alternative of the second field
    rcases path with _ | ⟨_ | _ | i, _ | ⟨_ | _ | j, _ | ⟨k, path⟩⟩⟩ <;>
      simp [ofLinks, place?_cons, children, inner] at h
    obtain ⟨rfl, rfl⟩ := h
    decide

/-! ### Names that are read otherwise -/

/-- Users, outside any name space. -/
def userDeclaration : DeclaredRecord :=
  ⟨"User", none, none, [], [⟨"team", .record "Team", none, ⟨none, none, none, none, none, []⟩⟩]⟩

/-- Teams, in a name space. -/
def teamDeclaration : DeclaredRecord :=
  ⟨"Team", some "org", none, [],
    [⟨"lead", .record "User", none, ⟨none, none, none, none, none, []⟩⟩]⟩

/-- The registry with both of them. -/
def userRegistry : Registry :=
  ((Registry.declare teamDeclaration).run
    ((Registry.declare userDeclaration).run Registry.empty).2).2

/-- The schema of a user: the lead of the team is a reference. -/
def ofUser : Schema :=
  .record ⟨"User", none, none, [], [
    ⟨"team", .record ⟨"Team", some "org", none, [], [
      ⟨"lead", .reference "User", none, none, []⟩]⟩, none, none, []⟩]⟩

/-- **Names are not always read as they are meant**: within the name space of the team the reference
to the user is read as that of a user of the same name space, which is not defined. -/
theorem ofUser_not_namesReadable :
    userRegistry.Reached ∧
      (∃ r', (ofRecord true "User").run userRegistry = (.ok ofUser, r')) ∧
      ¬ NamesReadable userRegistry.answer "User" ofUser := by
  refine ⟨.declare _ (.declare _ (.new none)), ⟨_, by with_unfolding_all rfl⟩, fun h => ?_⟩
  have htype : ofUser.toJson.typeAt? none [0, 0] = some (some "org", .string "User") := by
    rw [typeAt?_toJson]
    rfl
  obtain ⟨_, _, full, htype', hname, -, -, -, q, -, -, -, -, -, hread⟩ :=
    h.references [0, 0] ⟨some "org", "User", rfl⟩
  cases htype.symm.trans htype'
  have hfull : full = "org.User" := by
    have hreads : readName (some "org") "User" = .named "org.User" := by decide
    exact (ReadName.named.inj (hreads.symm.trans hname)).symm
  subst hfull
  -- only the user and the team are defined, and neither is read as this name
  rw [definedNameAt?_toJson] at hread
  rcases q with _ | ⟨_ | i, _ | ⟨_ | j, _ | ⟨k, q⟩⟩⟩ <;>
    simp [ofUser, place?_cons, children, inner, defines] at hread
  · revert hread
    decide
  · revert hread
    decide

end Schema

end RecordModel
