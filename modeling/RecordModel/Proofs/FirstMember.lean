/-
**The first member that converts.**

Of a union the first member whose conversion succeeds makes the value, and it leaves some checks to
others.  So the value of a member that takes what is written without any reserve may not be the one
that is made: an enumeration makes a symbol of every text, and a text is no symbol of it.  When a
member fits, a value is made nevertheless, unless the conversion breaks down, and it is a value of
the union, or one that an earlier member made and that only those checks refuse.

Main definitions:

* `Conversion.PassedOver` — the member whose value is taken, behind members that make none.

Main results:

* `Conversion.exists_passedOver` — when a member converts, the first one that does makes the value;
* `checkDefault_of_union` — a value of the union is a default of a field of its type;
* `Conversion.convertUnion_fits` — **what is made when a member fits**;
* `Conversion.symbol_before_text` — an enumeration before texts takes a text that is no symbol.
-/

import RecordModel.Proofs.ConvertedShapes
import RecordModel.Proofs.Rearranged

set_option relaxedAutoImplicit false
set_option autoImplicit false

namespace RecordModel

namespace Conversion

open Descriptor

variable {records : List DeclaredRecord} {owner : String}

/-! ### The first member -/

/-- The members are `before`, which do not convert what is written, then `t`, which does, and
`after`. -/
structure PassedOver (records : List DeclaredRecord) (owner : String) (raw : Json) (place : Place)
    (ts before : List DeclaredType) (t : DeclaredType) (after : List DeclaredType) (v : Value) :
    Prop where
  split : ts = before ++ t :: after
  refused : ∀ u ∈ before, ∀ w, convert records owner raw u place ≠ .ok w
  converts : convert records owner raw t place = .ok v

theorem PassedOver.cons {raw : Json} {place : Place} {ts before after : List DeclaredType}
    {t u : DeclaredType} {v : Value} (h : PassedOver records owner raw place ts before t after v)
    (hu : ∀ w, convert records owner raw u place ≠ .ok w) :
    PassedOver records owner raw place (u :: ts) (u :: before) t after v where
  split := congrArg (u :: ·) h.split
  refused := List.forall_mem_cons.mpr ⟨hu, h.refused⟩
  converts := h.converts

theorem PassedOver.eq_or_mem {raw : Json} {place : Place} {ts before after : List DeclaredType}
    {t u : DeclaredType} {v w : Value} (h : PassedOver records owner raw place ts before t after v)
    (hu : u ∈ ts) (hw : convert records owner raw u place = .ok w) : u = t ∨ u ∈ after := by
  rw [h.split, List.mem_append, List.mem_cons] at hu
  exact hu.resolve_left fun hbefore => h.refused u hbefore w hw

/-- **When a member converts what is written, the first one that does makes the value**, unless the
conversion breaks down before. -/
theorem exists_passedOver {raw : Json} (htag : tagOfValue? raw = none) {place : Place}
    {ts : List DeclaredType}
    (hcalm : ∀ b, convertUnion records owner raw ts place ≠ .error (.breakdown b))
    {u : DeclaredType} {w : Value} (hu : u ∈ ts)
    (hw : convert records owner raw u place = .ok w) :
    ∃ before t after v, PassedOver records owner raw place ts before t after v ∧
      convertUnion records owner raw ts place = .ok v := by
  induction ts with
  | nil => cases hu
  | cons t rest ih =>
      rw [convertUnion, htag] at hcalm ⊢
      simp only [Option.map_none, Option.getD_none, if_true] at hcalm ⊢
      cases ht : convert records owner raw t place with
      | ok v => exact ⟨[], t, rest, v, ⟨rfl, List.forall_mem_nil _, ht⟩, rfl⟩
      | error failure =>
          rw [ht] at hcalm
          have hrefused : ∀ x, convert records owner raw t place ≠ .ok x := by simp [ht]
          cases failure with
          | breakdown b => exact absurd rfl (hcalm b)
          | error e =>
              have hu : u ∈ rest := (List.mem_cons.mp hu).resolve_left
                fun heq => hrefused w (heq ▸ hw)
              obtain ⟨before, t', after, v, hpassed, hv⟩ := ih hcalm hu
              exact ⟨t :: before, t', after, v, hpassed.cons hrefused, hv⟩

/-- The first member makes the value when it converts what is written. -/
theorem convertUnion_of_convert {raw : Json} (htag : tagOfValue? raw = none) {t : DeclaredType}
    {rest : List DeclaredType} {place : Place} {v : Value}
    (h : convert records owner raw t place = .ok v) :
    convertUnion records owner raw (t :: rest) place = .ok v := by
  rw [convertUnion, htag]
  simp [h]

end Conversion

/-! ### Values of a union as defaults -/

open Descriptor

/-- A default changes no type that has alternatives. -/
theorem Descriptor.withDefault_of_hasAlternatives {d : Descriptor} (h : d.hasAlternatives = true)
    (default : Option Value) : d.withDefault default = d := by
  unfold withDefault
  split
  · simp [h]
  · rfl

theorem Descriptor.settledDefault_union (members : List Descriptor) (v : Value) :
    (union members).settledDefault v = .ok v := rfl

/-- **A value that a settled union takes is a default of a field of the union**, for the check that
is not strict. -/
theorem checkDefault_of_union {ctx : FieldSite} {ts : List DeclaredType} {d : Descriptor}
    (hd : ofDeclared ctx (.union ts) = .ok d) {v : Value} (hv : d.accepts v = true) (order : Nat) :
    ∃ f, Field.ofDeclaration ctx.record order
        ⟨ctx.field, .union ts, some (.value v), ctx.attributes⟩ = .ok f ∧
      f.type = d ∧ f.default = some v ∧ checkDefault ctx.record f false = .ok () := by
  obtain ⟨ds, -, -, -, rfl⟩ := exists_of_ofDeclared_union hd
  refine ⟨⟨ctx.field, _, some v, order, ctx.attributes.doc, ctx.attributes.aliases⟩, ?_, rfl, rfl,
    ?_⟩
  · have hsettled : ofDeclared ⟨ctx.record, ctx.field, ctx.attributes⟩ (.union ts) =
        .ok (.union (ds.flatMap spliced)) := hd
    simp only [Field.ofDeclaration, DeclaredField.typeAndDefault, hsettled, bind, Except.bind,
      Option.map_some, DeclaredDefault.toValue, settledDefault_union, pure, Except.pure,
      withDefault_of_hasAlternatives (d := .union (ds.flatMap spliced)) rfl]
  · rw [checkDefault_eq_ok_iff]
    rintro _ ⟨⟩
    simpa [Suits] using hv

namespace Conversion

/-! ### What a union makes -/

/-- **When a member of a union fits what is written**, because what it makes of it is a value of its
settled type, the union makes a value, unless the conversion breaks down.  This is a value of the
settled union, and a default of a field of the union; or an earlier member made it, the first one
that converts what is written, and it has the shape of the settled type of that member and fails
only a check that the conversion leaves to others. -/
theorem convertUnion_fits {m : Model} {ctx : FieldSite} {ts : List DeclaredType} {d : Descriptor}
    (hd : ofDeclared ctx (.union ts) = .ok d) {raw : Json} (hraw : raw.InRange)
    (htag : tagOfValue? raw = none) {place : Place}
    (hcalm : ∀ b, convertUnion m.records ctx.record raw ts place ≠ .error (.breakdown b))
    {u : DeclaredType} (hu : u ∈ ts) {e : Descriptor} (he : ofDeclared ctx u = .ok e) {w : Value}
    (hw : convert m.records ctx.record raw u place = .ok w) (hfits : e.accepts w = true) :
    ∃ before t after v, PassedOver m.records ctx.record raw place ts before t after v ∧
      convertUnion m.records ctx.record raw ts place = .ok v ∧
      ((d.accepts v = true ∧ ∀ order, ∃ f,
          Field.ofDeclaration ctx.record order
            ⟨ctx.field, .union ts, some (.value v), ctx.attributes⟩ = .ok f ∧
          f.type = d ∧ f.default = some v ∧ checkDefault ctx.record f false = .ok ()) ∨
        (d.accepts v = false ∧ u ∈ after ∧ ∃ e', ofDeclared ctx t = .ok e' ∧
          e'.acceptsShape v = true ∧ e'.accepts v = false)) := by
  obtain ⟨before, t, after, v, hpassed, hv⟩ := exists_passedOver htag hcalm hu hw
  refine ⟨before, t, after, v, hpassed, hv, ?_⟩
  obtain ⟨ds, -, hds, -, rfl⟩ := exists_of_ofDeclared_union hd
  have ht : t ∈ ts := hpassed.split ▸ List.mem_append_right _ (List.mem_cons_self ..)
  obtain ⟨e', he', hte'⟩ := exists_right_of_forall₂ hds ht
  have hunion : (Descriptor.union (ds.flatMap spliced)).accepts v = ds.any fun d => d.accepts v :=
    (byAlternatives_accepts v).union_spliced ds
  cases haccepts : (Descriptor.union (ds.flatMap spliced)).accepts v with
  | true => exact .inl ⟨rfl, checkDefault_of_union hd haccepts⟩
  | false =>
      -- then the member is not the one that fits, whose value the union takes
      rw [hunion, List.any_eq_false] at haccepts
      have hrefused : e'.accepts v = false := by simpa using haccepts e' he'
      refine .inr ⟨rfl, (hpassed.eq_or_mem hu hw).resolve_left ?_, e', hte',
        acceptsShape_of_convert hraw hte' hpassed.converts, hrefused⟩
      rintro rfl
      cases hte'.symm.trans he
      cases hw.symm.trans hpassed.converts
      exact absurd hfits (by simp [hrefused])

/-! ### An enumeration before texts -/

/-- The members of a union of an enumeration and texts. -/
def shadeMembers : List DeclaredType := [.enum "Color" ["RED"] none, .string]

/-- The field with that union. -/
def shadeSite : FieldSite := ⟨"Paint", "shade", ⟨none, none, none, none, none, []⟩⟩

/-- The settled union. -/
def shade : Descriptor := .union [.enum ⟨"Color", ["RED"], none⟩, .primitive .string]

/-- The model with the record of the field. -/
def ofShade : Model :=
  ⟨[⟨"Paint", none, none, [], [⟨"shade", .union shadeMembers, none, shadeSite.attributes⟩]⟩]⟩

theorem ofDeclared_shade : ofDeclared shadeSite (.union shadeMembers) = .ok shade := by
  with_unfolding_all rfl

theorem convertUnion_shade (place : Place) :
    convertUnion ofShade.records "Paint" (.string "grey") shadeMembers place =
      .ok (.enum "grey") :=
  convertUnion_of_convert rfl (Reads.scalar rfl Json.noConfusion rfl place)

theorem reads_grey : Reads ofShade.records "Paint" .string (.string "grey") (.string "grey") :=
  .scalar rfl Json.noConfusion rfl

/-- The text is a value of the union, but the enumeration comes first and makes a symbol of it that
it does not have. -/
theorem grey_made_by_enum :
    (∀ b, convertUnion ofShade.records "Paint" (.string "grey") shadeMembers .document ≠
        .error (.breakdown b)) ∧
      ∃ before t after, PassedOver ofShade.records "Paint" (.string "grey") .document shadeMembers
          before t after (.enum "grey") ∧ .string ∈ after ∧
        ∃ e', ofDeclared shadeSite t = .ok e' ∧ e'.acceptsShape (.enum "grey") = true ∧
          e'.accepts (.enum "grey") = false := by
  have hcalm : ∀ b, convertUnion ofShade.records "Paint" (.string "grey") shadeMembers .document ≠
      .error (.breakdown b) := by
    rw [convertUnion_shade]
    exact nofun
  have hmember : .string ∈ shadeMembers := List.mem_cons_of_mem _ (List.mem_singleton_self _)
  obtain ⟨before, t, after, v, hpassed, hv, hmade⟩ := convertUnion_fits (m := ofShade)
    ofDeclared_shade .string rfl hcalm hmember rfl (reads_grey .document) rfl
  cases (convertUnion_shade .document).symm.trans hv
  refine ⟨hcalm, before, t, after, hpassed, ?_⟩
  rcases hmade with ⟨haccepts, -⟩ | ⟨-, hafter, hlax⟩
  · exact absurd haccepts (by decide)
  · exact ⟨hafter, hlax⟩

/-- **The value that a union makes may be none of its values although a member fits**: the text is
one, but the symbol that the enumeration makes of it is not. -/
theorem symbol_before_text :
    ofDeclared shadeSite (.union shadeMembers) = .ok shade ∧ (Json.string "grey").InRange ∧
      tagOfValue? (.string "grey") = none ∧ .string ∈ shadeMembers ∧
      ofDeclared shadeSite .string = .ok (.primitive .string) ∧
      convert ofShade.records "Paint" (.string "grey") .string (.value "Paint" "shade") =
        .ok (.string "grey") ∧
      (Descriptor.primitive .string).accepts (.string "grey") = true ∧
      ¬ ∃ v, convertUnion ofShade.records "Paint" (.string "grey") shadeMembers
        (.value "Paint" "shade") = .ok v ∧ shade.accepts v = true := by
  refine ⟨ofDeclared_shade, .string, rfl, List.mem_cons_of_mem _ (List.mem_singleton_self _), rfl,
    reads_grey _, rfl, ?_⟩
  rintro ⟨v, hv, haccepts⟩
  cases (convertUnion_shade _).symm.trans hv
  exact absurd haccepts (by decide)

end Conversion

end RecordModel
