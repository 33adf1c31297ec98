/-
**Instances in converted values.**

A reference takes the instances of its record by their name, so that the shape of a value says
nothing of what is in them.  A conversion does: every instance inside a converted value, at any
depth, is of a record that is declared.  It has some of the fields of that record, in the order of
declaration, and each of them has a value of the shape of the type that is declared for the field,
where the type of the record itself means the record of that instance.

Main definitions:

* `Value.Holds` — the instances inside a value, at any depth;
* `DeclaredField.Shapes` — an entry of the name of the field and of the shape of its type;
* `Conversion.FollowsDeclaration` — an instance of some fields of a declared record.

Main results:

* `Conversion.followsDeclaration_of_holds` — every instance inside a converted value follows the
  declaration of its record;
* `Model.converted_shapes` — **a converted value has the shape of its type, and so have the values
  in its instances; and null is converted for the types that accept it**.
-/

import RecordModel.Proofs.UnionChoice

set_option relaxedAutoImplicit false
set_option autoImplicit false

namespace RecordModel

/-! ### Instances inside a value -/

/-- The instance is inside the value, at any depth. -/
inductive Value.Holds : Value → Instance Value → Prop
  | itself {i : Instance Value} : Holds (.record i) i
  | item {vs : List Value} {v : Value} {i : Instance Value} :
      v ∈ vs → Holds v i → Holds (.array vs) i
  | entry {entries : List (String × Value)} {e : String × Value} {i : Instance Value} :
      e ∈ entries → Holds e.2 i → Holds (.map entries) i
  | field {j : Instance Value} {e : String × Value} {i : Instance Value} :
      e ∈ j.fields → Holds e.2 i → Holds (.record j) i

theorem Value.Holds.isScalar {v : Value} {i : Instance Value} (h : v.Holds i) :
    v.isScalar = false := by
  cases h <;> rfl

/-! ### Instances of a declared record -/

/-- The entry has the name of the field and a value of the shape of its type, as it is declared in
the record and as it is settled there. -/
structure DeclaredField.Shapes (record : String) (f : DeclaredField) (e : String × Value) :
    Prop where
  name : f.name = e.1
  outline : (f.type.outline record).acceptsShape e.2 = true
  settled : ∀ d, Descriptor.ofDeclared ⟨record, f.name, f.attributes⟩ f.type = .ok d →
    d.acceptsShape e.2 = true

theorem DeclaredField.Shapes.of_outline {record : String} {f : DeclaredField} {e : String × Value}
    (hname : f.name = e.1) (h : (f.type.outline record).acceptsShape e.2 = true) :
    f.Shapes record e where
  name := hname
  outline := h
  settled _ hd := (Descriptor.acceptsShape_eq_outline hd e.2).trans h

namespace Conversion

open Descriptor

variable {records : List DeclaredRecord} {owner : String} {t : DeclaredType} {raw : Json}
  {v : Value}

/-- The record of the instance is declared, and the instance has some of its fields, in the order of
declaration and each with a value of the shape of its type. -/
def FollowsDeclaration (records : List DeclaredRecord) (i : Instance Value) : Prop :=
  ∃ declared, records.find? (·.name = i.record) = some declared ∧
    ∃ fs : List DeclaredField, fs.Sublist declared.fields ∧
      List.Forall₂ (DeclaredField.Shapes i.record) fs i.fields

/-- What a type without parts makes is a scalar. -/
theorem isScalar_of_scalar (h : scalar t raw = .ok (some v)) : v.isScalar = true := by
  cases t with
  | date =>
      obtain ⟨date, -, h⟩ := exists_of_bind_eq_ok h
      obtain ⟨_, -, rfl⟩ := Option.map_eq_some_iff.mp (Except.ok.inj h)
      rfl
  | string | «enum» =>
      cases raw <;> cases h
      rfl
  | null | list | tuple | dict | union | optional | record | self => cases h
  | _ =>
      obtain ⟨_, -, rfl⟩ := Option.map_eq_some_iff.mp (Except.ok.inj h)
      rfl

theorem followsDeclaration_of_fields {name : String} {declared : DeclaredRecord}
    {members : List (String × Json)} {fields : List (String × Value)}
    (hraw : ∀ m ∈ members, m.2.InRange) (hfind : records.find? (·.name = name) = some declared)
    (h : List.Forall₂ (FromMember members fun f => Accepts records name f.type)
      (written members declared.fields) fields) :
    FollowsDeclaration records ⟨name, fields⟩ := by
  refine ⟨declared, hfind, written members declared.fields, List.filter_sublist, ?_⟩
  refine h.imp fun f e he => ?_
  obtain ⟨hname, raw, hmember, hv⟩ := he
  exact .of_outline hname (outline_of_convert (hraw _ (Keyed.mem_of_get? hmember)) hv)

/-- **Every instance inside a converted value follows the declaration of its record.** -/
theorem followsDeclaration_of_holds (hraw : raw.InRange) (h : Accepts records owner t raw v)
    {i : Instance Value} (hi : v.Holds i) : FollowsDeclaration records i := by
  refine accepts_induction
    (P := fun _ _ raw v => raw.InRange → ∀ i, v.Holds i → FollowsDeclaration records i)
    ?null ?scalar ?optional ?member ?items ?dict ?record h hraw i hi
  case null =>
    intro owner t _ _ i hi
    cases hi
  case scalar =>
    intro owner t raw v _ hv _ i hi
    exact absurd (isScalar_of_scalar hv) (by simp [hi.isScalar])
  case optional => exact fun owner inner raw v ih => ih
  case member => exact fun owner ts t raw v _ ih => ih
  case items =>
    intro owner t items raws vs _ hvs hraw i hi
    cases hraw with
    | array hraw =>
        cases hi with
        | item hv hi =>
            obtain ⟨item, hitem, -, ih⟩ := exists_left_of_forall₂ hvs hv
            exact ih (hraw item hitem) i hi
  case dict =>
    intro owner values members entries hentries hraw i hi
    cases hraw with
    | object hraw =>
        cases hi with
        | entry he hi =>
            obtain ⟨m, hm, -, -, ih⟩ := exists_left_of_forall₂ hentries (Keyed.mem_ofUnsorted he)
            exact ih (hraw m hm) i hi
  case record =>
    intro owner t name declared members fields _ hfind hfields hraw i hi
    cases hraw with
    | object hraw =>
        cases hi with
        | itself =>
            refine followsDeclaration_of_fields hraw hfind (hfields.imp fun f e he => ?_)
            obtain ⟨hname, raw, hmember, hv, -⟩ := he
            exact ⟨hname, raw, hmember, hv⟩
        | field he hi =>
            obtain ⟨f, -, -, raw, hmember, -, ih⟩ := exists_left_of_forall₂ hfields he
            exact ih (hraw _ (Keyed.mem_of_get? hmember)) i hi

/-- Null is converted for the types that are written with null. -/
theorem exists_convert_null_iff {place : Place} :
    (∃ v, convert records owner .null t place = .ok v) ↔ t.takesNull = true := by
  constructor
  · rintro ⟨v, hv⟩
    have hnull : outcome (convert records owner .null t place) = _ := outcome_convert_null t
    rw [hv] at hnull
    cases ht : t.takesNull with
    | true => rfl
    | false =>
        rw [ht] at hnull
        cases hnull
  · exact fun h => ⟨.null, convert_null records owner t place h⟩

end Conversion

namespace Model

/-! ### The main result -/

/-- **A converted value has the shape of its type**, every instance inside it follows the
declaration of its record, and null is converted exactly for the types that accept it. -/
theorem converted_shapes {m : Model} {ctx : FieldSite} {t : DeclaredType} {d : Descriptor}
    (hd : Descriptor.ofDeclared ctx t = .ok d) (place : Place) :
    (∀ raw v, raw.InRange → Conversion.convert m.records ctx.record raw t place = .ok v →
      d.acceptsShape v = true ∧ ∀ i, v.Holds i → Conversion.FollowsDeclaration m.records i) ∧
    ((∃ v, Conversion.convert m.records ctx.record .null t place = .ok v) ↔
      d.accepts .null = true) := by
  constructor
  · intro raw v hraw h
    refine ⟨Conversion.acceptsShape_of_convert hraw hd h, fun i hi => ?_⟩
    exact Conversion.followsDeclaration_of_holds hraw ⟨place, h⟩ hi
  · rw [Conversion.exists_convert_null_iff, takesNull_eq_accepts hd]

/-- Stops on a line, each with the next one. -/
def ofStops : Model :=
  ⟨[⟨"Stop", none, none, [],
    [⟨"name", .string, none, ⟨none, none, none, none, none, []⟩⟩,
      ⟨"next", .optional .self, none, ⟨none, none, none, none, none, []⟩⟩]⟩]⟩

/-- A stop without a name, which is followed by one with a name alone, is written for the first stop
of a line.  The stop inside the other one has the shape that the record of stops asks for, not the
record of lines. -/
theorem ofStops_converted_shapes :
    let ctx : FieldSite := ⟨"Line", "first", ⟨none, none, none, none, none, []⟩⟩
    let last : Instance Value := ⟨"Stop", [("name", .string "Quay")]⟩
    let raw : Json := .object [("next", .object [("name", .string "Quay")])]
    Descriptor.ofDeclared ctx (.optional (.record "Stop")) = .ok (.optional (.reference "Stop")) ∧
      raw.InRange ∧
      Conversion.convert ofStops.records "Line" raw (.optional (.record "Stop")) .document =
        .ok (.record ⟨"Stop", [("next", .record last)]⟩) ∧
      Conversion.FollowsDeclaration ofStops.records last ∧
      ∃ v, Conversion.convert ofStops.records "Line" .null (.optional (.record "Stop")) .document =
        .ok v := by
  intro ctx last raw
  have hd : Descriptor.ofDeclared ctx (.optional (.record "Stop")) =
      .ok (.optional (.reference "Stop")) := by with_unfolding_all rfl
  have hraw : raw.InRange :=
    .object (List.forall_mem_singleton.mpr (.object (List.forall_mem_singleton.mpr .string)))
  have hlast : Conversion.Reads ofStops.records "Stop" .self
      (.object [("name", .string "Quay")]) (.record last) :=
    .record rfl rfl rfl (.cons ⟨rfl, _, rfl, .scalar rfl Json.noConfusion rfl⟩ .nil)
  have hfirst : Conversion.Reads ofStops.records "Line" (.record "Stop") raw
      (.record ⟨"Stop", [("next", .record last)]⟩) := by
    refine .record rfl rfl rfl (.cons ⟨rfl, _, rfl, fun place => ?_⟩ .nil)
    exact (Conversion.convert_optional _ _ _ _ _ Json.noConfusion).trans (hlast place)
  have h := (Conversion.convert_optional _ _ _ _ .document Json.noConfusion).trans
    (hfirst .document)
  obtain ⟨hshapes, hnull⟩ := converted_shapes (m := ofStops) hd .document
  refine ⟨hd, hraw, h, (hshapes raw _ hraw h).2 last ?_, hnull.mpr (by decide)⟩
  exact .field (List.mem_cons_self ..) .itself

end Model

end RecordModel
