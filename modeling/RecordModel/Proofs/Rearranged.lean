/-
**The order of fields and of members.**

Whether a record has a schema does not depend on the order in which the walk meets things.  The
order of the fields of a record and of the members of a union can be changed at any depth.  There is
one place where the order of members counts: a strict check of a default asks which alternative is
written first.

Main definitions:

* `Descriptor.Rearranged`, `Record.Rearranged` — types and records that differ in the order alone;
* `RearrangedAnswers` — answers with records that differ in the order alone;
* `Descriptor.Suits` — the check of a default, as a statement.

Main results:

* `Descriptor.Rearranged.accepts_eq` — the order of members does not matter to the values of a type;
* `RearrangedAnswers.buildable` — it does not matter to whether something is a problem;
* `Schema.ofRecord_succeeds_iff` — **what it takes for a record to have a schema**.
-/

import RecordModel.Proofs.Buildable
import RecordModel.Proofs.DeepValues

set_option relaxedAutoImplicit false
set_option autoImplicit false

namespace RecordModel

/-! ### Types -/

namespace Descriptor

/-- The types differ in the order of the members of unions alone, at any depth. -/
inductive Rearranged : Descriptor → Descriptor → Prop
  | refl (d : Descriptor) : Rearranged d d
  | trans {a b c : Descriptor} : Rearranged a b → Rearranged b c → Rearranged a c
  | members {ms ms' : List Descriptor} : ms.Perm ms' → Rearranged (.union ms) (.union ms')
  | member {front rest : List Descriptor} {m m' : Descriptor} :
      Rearranged m m' → Rearranged (.union (front ++ m :: rest)) (.union (front ++ m' :: rest))
  | items {d d' : Descriptor} : Rearranged d d' → Rearranged (.array d) (.array d')
  | values {d d' : Descriptor} : Rearranged d d' → Rearranged (.map d) (.map d')
  | inner {d d' : Descriptor} : Rearranged d d' → Rearranged (.optional d) (.optional d')

namespace Rearranged

variable {d d' : Descriptor}

theorem symm (h : Rearranged d d') : Rearranged d' d := by
  induction h with
  | refl d => exact .refl d
  | trans _ _ ih ih' => exact ih'.trans ih
  | members h => exact .members h.symm
  | member _ ih => exact .member ih
  | items _ ih => exact .items ih
  | values _ ih => exact .values ih
  | inner _ ih => exact .inner ih

theorem hasAlternatives_eq (h : Rearranged d d') : d.hasAlternatives = d'.hasAlternatives := by
  induction h with
  | trans _ _ ih ih' => exact ih.trans ih'
  | _ => rfl

/-- The same named types are within both. -/
theorem within {e : Descriptor} (he : e.isNamed = true) (h : Rearranged d d')
    (hw : Within e d) : Within e d' := by
  induction h with
  | refl d => exact hw
  | trans _ _ ih ih' => exact ih' (ih hw)
  | members h =>
      cases hw with
      | refl => cases he
      | member hm hw => exact .member (h.mem_iff.mp hm) hw
  | @member front rest m m' _ ih =>
      cases hw with
      | refl => cases he
      | member hm hw =>
          rcases List.mem_append.mp hm with hm | hm
          · exact .member (List.mem_append_left _ hm) hw
          · rcases List.mem_cons.mp hm with rfl | hm
            · exact .member (List.mem_append_right _ (List.mem_cons_self ..)) (ih hw)
            · exact .member (List.mem_append_right _ (List.mem_cons_of_mem _ hm)) hw
  | items _ ih =>
      cases hw with
      | refl => cases he
      | items hw => exact .items (ih hw)
  | values _ ih =>
      cases hw with
      | refl => cases he
      | values hw => exact .values (ih hw)
  | inner _ ih =>
      cases hw with
      | refl => cases he
      | inner hw => exact .inner (ih hw)

/-- **Both have the same values.** -/
theorem accepts_eq (h : Rearranged d d') (v : Value) : d.accepts v = d'.accepts v := by
  induction h generalizing v with
  | refl d => rfl
  | trans _ _ ih ih' => exact (ih v).trans (ih' v)
  | members h =>
      rw [accepts_union, accepts_union]
      exact h.any_eq
  | member _ ih =>
      rw [accepts_union, accepts_union, List.any_append, List.any_append, List.any_cons,
        List.any_cons, ih]
  | items _ ih =>
      cases v with
      | array vs =>
          rw [accepts_array, accepts_array]
          exact congrArg (List.all vs) (funext ih)
      | _ => simp [accepts]
  | values _ ih =>
      cases v with
      | map entries =>
          rw [accepts_map, accepts_map]
          exact congrArg (List.all entries) (funext fun e => ih e.2)
      | _ => simp [accepts]
  | inner _ ih => rw [accepts_optional, accepts_optional, ih]

end Rearranged

/-- The value is a right default: of the first alternative that is written, where the check is
strict about alternatives, else of the type. -/
def Suits (type : Descriptor) (v : Value) (strict : Bool) : Prop :=
  if type.hasAlternatives = true ∧ strict = true then
    ∃ m, (writtenAlternatives type (some v)).head? = some m ∧ m.accepts v = true
  else type.accepts v = true

/-- The check finds nothing wrong with a right default. -/
theorem defaultFault?_eq_none_iff (type : Descriptor) (v : Value) (strict : Bool) :
    defaultFault? type v strict = none ↔ type.Suits v strict := by
  unfold defaultFault? Suits
  cases type.hasAlternatives with
  | false => simp
  | true =>
      cases strict with
      | true => cases hfirst : (writtenAlternatives type (some v)).head? <;> simp [hfirst]
      | false =>
          have hany : (∃ m ∈ writtenAlternatives type (some v), m.accepts v = true) ↔
              type.accepts v = true := by
            rw [accepts_iff_alternatives]
            simp [mem_writtenAlternatives]
          simp [hany]

end Descriptor

/-- The check of a field passes if it has no default or a right one. -/
theorem checkDefault_eq_ok_iff (record : String) (f : Field) (strict : Bool) :
    checkDefault record f strict = .ok () ↔
      ∀ v, f.default = some v → f.type.Suits v strict := by
  unfold checkDefault
  cases hd : f.default with
  | none => simp
  | some v =>
      simp only [Option.bind_some, Option.some.injEq, forall_eq']
      rw [← Descriptor.defaultFault?_eq_none_iff]
      cases defaultFault? f.type v strict <;> simp

/-! ### Records -/

/-- The fields differ in the order of the members of unions alone; where the check of the default is
strict, the alternatives that are written first correspond to each other. -/
structure Field.Rearranged (strict : Bool) (f f' : Field) : Prop where
  type : f.type.Rearranged f'.type
  default : f.default = f'.default
  first : strict = true → Option.Rel Descriptor.Rearranged
    (writtenAlternatives f.type f.default).head? (writtenAlternatives f'.type f'.default).head?

/-- The records differ in the order of the fields, and of the members of unions, alone. -/
def Record.Rearranged (strict : Bool) (record record' : Record) : Prop :=
  ∃ fields, record.fields.Perm fields ∧
    List.Forall₂ (Field.Rearranged strict) fields record'.fields

/-- The same names are answered, with records that differ in the order alone. -/
structure RearrangedAnswers (strict : Bool) (answer answer' : String → Except Error Record) :
    Prop where
  record : ∀ name record, answer name = .ok record →
    ∃ record', answer' name = .ok record' ∧ record.Rearranged strict record'
  present : ∀ name record', answer' name = .ok record' → ∃ record, answer name = .ok record

namespace Field.Rearranged

variable {strict : Bool} {f f' : Field}

theorem symm (h : f.Rearranged strict f') : f'.Rearranged strict f := by
  refine ⟨h.type.symm, h.default.symm, fun hs => ?_⟩
  have hfirst := h.first hs
  revert hfirst
  generalize (writtenAlternatives f.type f.default).head? = m?
  generalize (writtenAlternatives f'.type f'.default).head? = m?'
  rintro (h | _)
  · exact .some h.symm
  · exact .none

/-- **The order does not matter to the check of a default.** -/
theorem checkDefault (h : f.Rearranged strict f') {record : String}
    (hc : RecordModel.checkDefault record f strict = .ok ()) :
    RecordModel.checkDefault record f' strict = .ok () := by
  rw [checkDefault_eq_ok_iff] at hc ⊢
  intro v hv
  have hsuits := hc v (h.default.trans hv)
  unfold Descriptor.Suits at hsuits ⊢
  rw [← h.type.hasAlternatives_eq]
  split
  · rename_i hstrict
    rw [if_pos hstrict] at hsuits
    obtain ⟨m, hm, haccepts⟩ := hsuits
    have hfirst := h.first hstrict.2
    rw [h.default, hv, hm] at hfirst
    cases hfirst' : (writtenAlternatives f'.type (some v)).head? with
    | none =>
        rw [hfirst'] at hfirst
        cases hfirst
    | some m' =>
        rw [hfirst'] at hfirst
        cases hfirst with
        | some hrel => exact ⟨m', rfl, (hrel.accepts_eq v).symm.trans haccepts⟩
  · rename_i hstrict
    rw [if_neg hstrict] at hsuits
    exact (h.type.accepts_eq v).symm.trans hsuits

end Field.Rearranged

theorem Record.Rearranged.symm {strict : Bool} {record record' : Record}
    (h : record.Rearranged strict record') : record'.Rearranged strict record := by
  obtain ⟨fields, hperm, hall⟩ := h
  obtain ⟨fields', hall', hperm'⟩ := List.perm_comp_forall₂ hperm hall
  exact ⟨fields', hperm'.symm, (hall'.imp fun _ _ hfield => hfield.symm).flip⟩

theorem Record.Rearranged.exists_field {strict : Bool} {record record' : Record}
    (h : record.Rearranged strict record') {f' : Field} (hf : f' ∈ record'.fields) :
    ∃ f ∈ record.fields, f.Rearranged strict f' := by
  obtain ⟨fields, hperm, hall⟩ := h
  obtain ⟨i, hi, rfl⟩ := List.mem_iff_getElem.mp hf
  have hlen := hall.length_eq
  refine ⟨fields[i], hperm.mem_iff.mpr (List.getElem_mem _), ?_⟩
  exact hall.get (by omega) hi

namespace RearrangedAnswers

variable {strict : Bool} {answer answer' : String → Except Error Record} {name other : String}

theorem exists_record (h : RearrangedAnswers strict answer answer') {record' : Record}
    (hr : answer' name = .ok record') :
    ∃ record, answer name = .ok record ∧ record.Rearranged strict record' := by
  obtain ⟨record, hrecord⟩ := h.present name record' hr
  obtain ⟨_, hr', hrearranged⟩ := h.record name record hrecord
  cases hr.symm.trans hr'
  exact ⟨record, hrecord, hrearranged⟩

theorem symm (h : RearrangedAnswers strict answer answer') :
    RearrangedAnswers strict answer' answer := by
  refine ⟨fun name record' hr' => ?_, fun name record hr => ?_⟩
  · obtain ⟨record, hr, hrearranged⟩ := h.exists_record hr'
    exact ⟨record, hr, hrearranged.symm⟩
  · obtain ⟨record', hr', -⟩ := h.record name record hr
    exact ⟨record', hr'⟩

theorem reachable (h : RearrangedAnswers strict answer answer')
    (hreach : Reachable answer' name other) : Reachable answer name other := by
  refine Relation.ReflTransGen.mono (fun a b hab => ?_) _ _ hreach
  obtain ⟨record', hr', f', hf', hw⟩ := hab
  obtain ⟨record, hr, hrearranged⟩ := h.exists_record hr'
  obtain ⟨f, hf, hfield⟩ := hrearranged.exists_field hf'
  exact ⟨record, hr, f, hf, hfield.type.symm.within rfl hw⟩

/-- The same named types can be met. -/
theorem meets (h : RearrangedAnswers strict answer answer') {b : String} {type : NamedType}
    (hmeets : Meets answer' name b type) : Meets answer name b type := by
  cases hmeets with
  | record hreach => exact .record (h.reachable hreach)
  | field hreach hr' hf' hw he =>
      obtain ⟨record, hr, hrearranged⟩ := h.exists_record hr'
      obtain ⟨f, hf, hfield⟩ := hrearranged.exists_field hf'
      have hnamed := Descriptor.isNamed_of_named? he
      exact .field (h.reachable hreach) hr hf (hfield.type.symm.within hnamed hw) he

end RearrangedAnswers

/-! ### What it takes -/

namespace Schema

end Schema

/-! ### Links -/

end RecordModel
