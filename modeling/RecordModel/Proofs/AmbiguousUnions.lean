/-
**Ambiguous unions.**

A value may be taken by two members of a union.  Their identities differ, but whole numbers of 32
bits are also taken as those of 64 bits, the finite numbers of 32 and of 64 bits are taken for each
other, and two enumerations may share a symbol.  These are the only ways: for any other value the
member that takes it is the only one.

The types without alternatives that take a value are known from the kind of the value alone.  Where
there are several of one kind, their identities are equal, or their parameters are those of the
field, so that a union has one of them at most.

Main definitions:

* `Descriptor.Takers` — the types without alternatives that take a value;
* `Descriptor.Ambiguous` — the values that two alternatives of a type take;
* `Descriptor.OfField` — a type with the parameters of its field.

Main results:

* `Descriptor.accepts_iff_takers` — a value is taken by the types of its kind;
* `Descriptor.Canonical.eq_of_identity` — alternatives of one identity are the same;
* `Field.ofDeclaration_ofField` — the parameters in the type of a settled field are those of its
  declaration;
* `Field.ambiguous_iff` — **two alternatives of a settled type take a value exactly when it is
  ambiguous for the type**.
-/

import RecordModel.Proofs.CanonicalTypes
import RecordModel.Proofs.DeclaredMatching
import RecordModel.Proofs.Ranges
import RecordModel.Proofs.WellFormedDeclarations

set_option relaxedAutoImplicit false
set_option autoImplicit false

namespace RecordModel

/-! ### The range of 32 bits -/

namespace Binary

theorem size_le_size_iff {f : BinaryFormat} {x y : Binary f} (hx : x.isFinite = true)
    (hy : y.isFinite = true) : x.size ≤ y.size ↔ x.magnitude ≤ y.magnitude := by
  refine ⟨fun h => ?_, size_le_size hy⟩
  obtain ⟨num, den, hd, hv, -⟩ := ofScaled_eq (f := f) false x.significand x.exponent
  have hle : nearestMagnitude f num den ≤ y.magnitude :=
    nearestMagnitude_le_magnitude hd y (hv.trans_le h)
  rwa [nearestMagnitude_eq_magnitude hx hd hv] at hle

theorem greatest_single_size : (greatest .single).size = (2 ^ 24 - 1) * 2 ^ 104 := by
  have hs : (greatest .single).significand = 2 ^ 24 - 1 := by decide +kernel
  have he : (greatest .single).exponent = 104 := by decide +kernel
  rw [size, hs, he]
  norm_num

/-- A number of 64 bits is taken for 32 bits when it is not beyond the greatest of them. -/
theorem magnitude_le_greatestSingle_iff {x : Binary64} (hx : x.isFinite = true) :
    x.magnitude ≤ greatestSingle.magnitude ↔ x.size ≤ (2 ^ 24 - 1) * 2 ^ 104 := by
  obtain ⟨hfinite, hsize⟩ := widen_parts (greatest_isFinite (f := .single) (by decide))
  rw [← greatest_single_size, ← hsize, size_le_size_iff hx hfinite]
  rfl

end Binary

namespace Descriptor

/-! ### The types that take a value -/

/-- The types without alternatives that take a value. -/
def Takers : Value → Descriptor → Prop
  | .null, m => m = null
  | .boolean _, m => m = .primitive .boolean
  | .int32 _, m => m = .primitive .int32 ∨ m = .primitive .int64
  | .int64 _, m => m = .primitive .int64
  | .float32 x, m => x.isFinite = true ∧ (m = .primitive .float32 ∨ m = .primitive .float64)
  | .float64 x, m => x.isFinite = true ∧
      (m = .primitive .float32 ∧ x.size ≤ (2 ^ 24 - 1) * 2 ^ 104 ∨ m = .primitive .float64)
  | .bytes _, m => m = .primitive .bytes
  | .string _, m => m = .primitive .string
  | .date _, m => m = .logical .date
  | .timeMillis _, m => m = .logical .timeMillis
  | .timeMicros _, m => m = .logical .timeMicros
  | .timestampMillis _, m => m = .logical .timestampMillis
  | .timestampMicros _, m => m = .logical .timestampMicros
  | .uuid _, m => m = .logical .uuid
  | .decimal d, m => ∃ precision, m = .logical (.decimal precision d.scale) ∧ d.digits ≤ precision
  | .fixed bs, m => ∃ name, m = .fixed ⟨name, bs.length⟩
  | .enum s, m => ∃ e, m = .enum e ∧ s ∈ e.symbols
  | .array vs, m => ∃ items, m = .array items ∧ ∀ v ∈ vs, items.accepts v = true
  | .map entries, m => ∃ values, m = .map values ∧ ∀ e ∈ entries, values.accepts e.2 = true
  | .record i, m => m = .reference i.record

/-- The values of the primitive types, by the kind of the value. -/
theorem primitive_accepts_iff {kind : Primitive} {v : Value} :
    kind.accepts v = true ↔ Takers v (.primitive kind) := by
  cases v with
  | float64 x =>
      cases kind with
      | float32 =>
          simp only [Primitive.accepts, Takers, Bool.and_eq_true, decide_eq_true_eq, primitive.injEq,
            true_and, reduceCtorEq, or_false]
          exact and_congr_right fun hx => Binary.magnitude_le_greatestSingle_iff hx
      | _ => simp [Primitive.accepts, Takers]
  | _ => cases kind <;> simp [Primitive.accepts, Takers]

/-- The values of the logical types, by the kind of the value. -/
theorem logical_accepts_iff {kind : Logical} {v : Value} :
    kind.accepts v = true ↔ Takers v (.logical kind) := by
  cases kind with
  | decimal precision scale =>
      cases v with
      | decimal d =>
          rw [Logical.accepts, Bool.and_eq_true, beq_iff_eq, decide_eq_true_eq]
          constructor
          · rintro ⟨rfl, hle⟩
            exact ⟨precision, rfl, hle⟩
          · rintro ⟨_, he, hle⟩
            cases he
            exact ⟨rfl, hle⟩
      | _ => simp [Logical.accepts, Takers]
  | _ => cases v <;> simp [Logical.accepts, Takers]

/-- **A value is taken by the types of its kind.** -/
theorem accepts_iff_takers {m : Descriptor} (hplain : m.hasAlternatives = false) {v : Value} :
    m.accepts v = true ↔ Takers v m := by
  cases m with
  | primitive kind => rw [accepts, primitive_accepts_iff]
  | logical kind => rw [accepts, logical_accepts_iff]
  | union members => cases hplain
  | optional inner => cases hplain
  | fixed type =>
      obtain ⟨name, size⟩ := type
      cases v with
      | fixed bs =>
          rw [accepts, beq_iff_eq]
          constructor
          · rintro rfl
            exact ⟨name, rfl⟩
          · rintro ⟨_, he⟩
            cases he
            rfl
      | _ => simp [accepts, Takers]
  | reference name =>
      cases v with
      | record i => rw [accepts, beq_iff_eq, Takers, reference.injEq, eq_comm]
      | _ => simp [accepts, Takers]
  | _ => cases v <;> simp [accepts, Takers]

/-! ### Alternatives of one identity -/

/-- **Alternatives of one identity are the same**, but for null, which shares its identity with a
record of that name. -/
theorem Canonical.eq_of_identity {d m m' : Descriptor} (h : d.Canonical) (hm : m ∈ d.alternatives)
    (hm' : m' ∈ d.alternatives) (hnull : m.isNull = false) (hnull' : m'.isNull = false)
    (hidentity : m.identity = m'.identity) : m = m' := by
  cases d with
  | union members =>
      exact List.inj_on_of_nodup_map h.flat.self.distinct hm hm' hidentity
  | optional inner =>
      rw [alternatives_optional] at hm hm'
      have hinner : ∀ {m : Descriptor}, m.isNull = false →
          m ∈ null :: inner.alternatives.filter (fun m => !m.isNull) → m ∈ inner.alternatives := by
        intro m hnull hm
        rcases List.mem_cons.mp hm with rfl | hm
        · cases hnull
        · exact (List.mem_filter.mp hm).1
      replace hm := hinner hnull hm
      replace hm' := hinner hnull' hm'
      cases inner with
      | union members =>
          have hmembers : FlatMembers members := h.flat.within (.inner .refl) |>.self
          exact List.inj_on_of_nodup_map hmembers.distinct hm hm' hidentity
      | optional inner => cases h.flat.self.notOptional
      | _ => rw [List.mem_singleton.mp hm, List.mem_singleton.mp hm']
  | _ => rw [List.mem_singleton.mp hm, List.mem_singleton.mp hm']

/-! ### The parameters of a field -/

/-- A decimal and fixed bytes have the parameters of the field. -/
def OfField (ctx : FieldSite) : Descriptor → Prop
  | .logical (.decimal precision scale) =>
      ofDecimal ctx.attributes = .ok (.logical (.decimal precision scale))
  | .fixed type => ofFixed ctx = .ok (.fixed type)
  | _ => True

variable {ctx : FieldSite}

/-- A property of types that all optional types and unions have passes on to the optional type. -/
theorem Everywhere.asOptional {P : Descriptor → Prop} (hnull : P null)
    (hunion : ∀ members, P (.union members)) (hoptional : ∀ inner, P (.optional inner))
    {d : Descriptor} (h : d.Everywhere P) : d.asOptional.Everywhere P := by
  unfold Descriptor.asOptional
  split
  · exact h
  · exact everywhere_leaf rfl hnull
  · rename_i members
    have hmembers : ∀ m ∈ members.filter (fun m => !m.isNull), m.Everywhere P :=
      fun m hm => h.within (.member (List.mem_filter.mp hm).1 .refl)
    split
    · exact everywhere_leaf rfl hnull
    · rename_i m hm
      exact everywhere_optional (hoptional _) (hmembers m (hm ▸ List.mem_singleton_self m))
    · exact everywhere_optional (hoptional _) (everywhere_union (hunion _) hmembers)
  · exact everywhere_optional (hoptional _) h

theorem Everywhere.of_mem_spliced {P : Descriptor → Prop} (hnull : P null) {d m : Descriptor}
    (h : d.Everywhere P) (hm : m ∈ d.spliced) : m.Everywhere P := by
  unfold Descriptor.spliced at hm
  split at hm
  · exact h.within (.member hm .refl)
  · rcases List.mem_cons.mp hm with rfl | hm
    · exact everywhere_leaf rfl hnull
    · exact h.within (.inner (.member hm .refl))
  · rcases List.mem_cons.mp hm with rfl | hm
    · exact everywhere_leaf rfl hnull
    · exact List.mem_singleton.mp hm ▸ h.within (.inner .refl)
  · exact List.mem_singleton.mp hm ▸ h

/-- All decimals and fixed bytes in a settled type have the parameters of the field. -/
theorem ofDeclared_ofField {t : DeclaredType} {d : Descriptor} (h : ofDeclared ctx t = .ok d) :
    d.Everywhere (OfField ctx) := by
  refine ofDeclared_induction (P := fun _ d => d.Everywhere (OfField ctx))
    ?scalar ?items ?dict ?union ?optional ?record h
  case scalar =>
    intro t d ht hd
    refine everywhere_leaf (isLeaf_of_isScalar ht hd) ?_
    cases t with
    | decimal =>
        obtain ⟨precision, scale, rfl, -⟩ := exists_of_ofDecimal hd
        exact hd
    | fixed =>
        obtain ⟨type, rfl⟩ := exists_of_ofFixed hd
        exact hd
    | enum name symbols default =>
        obtain ⟨type, rfl⟩ := exists_of_ofEnum hd
        trivial
    | _ => first | (cases hd; trivial) | cases ht
  case items => exact fun _ _ _ _ _ hd => everywhere_array trivial hd
  case dict => exact fun _ _ _ hd => everywhere_map trivial hd
  case union =>
    intro ts ds _ hds _
    refine everywhere_union trivial fun m hm => ?_
    obtain ⟨d, hd, hm⟩ := List.mem_flatMap.mp hm
    obtain ⟨_, -, -, hfield⟩ := exists_left_of_forall₂ hds hd
    exact hfield.of_mem_spliced trivial hm
  case optional => exact fun _ _ _ hd => hd.asOptional trivial (fun _ => trivial) fun _ => trivial
  case record => exact fun _ _ _ => everywhere_reference trivial

end Descriptor

/-- **The parameters in the type of a settled field are those of its declaration.** -/
theorem Field.ofDeclaration_ofField {record : String} {order : Nat} {d : DeclaredField} {f : Field}
    (h : Field.ofDeclaration record order d = .ok f) :
    f.type.Everywhere (Descriptor.OfField (d.site record)) := by
  obtain ⟨type, default, htype, -, rfl⟩ := Field.ofDeclaration_eq_ok_iff.mp h
  have hfield := Descriptor.ofDeclared_ofField htype
  change (type.withDefault d.given).Everywhere _
  unfold Descriptor.withDefault
  split
  · split
    · exact hfield
    · exact Descriptor.everywhere_optional trivial hfield
  · exact hfield

/-! ### Ambiguous values -/

namespace Descriptor

/-- The values that two alternatives of a type take: a whole number of 32 bits, if there are both
types of whole numbers; a finite number in the range of 32 bits, if there are both types of such
numbers; and a symbol, if it stands in two enumerations. -/
def Ambiguous (d : Descriptor) : Value → Prop
  | .int32 _ => .primitive .int32 ∈ d.alternatives ∧ .primitive .int64 ∈ d.alternatives
  | .float32 x => x.isFinite = true ∧
      .primitive .float32 ∈ d.alternatives ∧ .primitive .float64 ∈ d.alternatives
  | .float64 x => x.isFinite = true ∧ x.size ≤ (2 ^ 24 - 1) * 2 ^ 104 ∧
      .primitive .float32 ∈ d.alternatives ∧ .primitive .float64 ∈ d.alternatives
  | .enum s => ∃ e e', e ≠ e' ∧ .enum e ∈ d.alternatives ∧ .enum e' ∈ d.alternatives ∧
      s ∈ e.symbols ∧ s ∈ e'.symbols
  | _ => False

/-- Two different alternatives of the type take the value. -/
def TakenTwice (d : Descriptor) (v : Value) : Prop :=
  ∃ (i j : Nat) (m m' : Descriptor), i ≠ j ∧ d.alternatives[i]? = some m ∧
    d.alternatives[j]? = some m' ∧ m.accepts v = true ∧ m'.accepts v = true

/-- Alternatives at different places are different types. -/
theorem FlatAlternatives.takenTwice_iff {d : Descriptor} (h : d.FlatAlternatives) {v : Value} :
    d.TakenTwice v ↔
      ∃ m ∈ d.alternatives, ∃ m' ∈ d.alternatives, m ≠ m' ∧ Takers v m ∧ Takers v m' := by
  constructor
  · rintro ⟨i, j, m, m', hne, hi, hj, hm, hm'⟩
    have hmem := List.mem_of_getElem? hi
    have hmem' := List.mem_of_getElem? hj
    refine ⟨m, hmem, m', hmem', fun he => hne ?_, (accepts_iff_takers (h.plain m hmem)).mp hm,
      (accepts_iff_takers (h.plain m' hmem')).mp hm'⟩
    obtain ⟨hlt, -⟩ := List.getElem?_eq_some_iff.mp hi
    exact (List.getElem?_inj hlt h.nodup).mp (hi.trans (he ▸ hj.symm))
  · rintro ⟨m, hmem, m', hmem', hne, hm, hm'⟩
    obtain ⟨i, hi⟩ := List.getElem?_of_mem hmem
    obtain ⟨j, hj⟩ := List.getElem?_of_mem hmem'
    refine ⟨i, j, m, m', fun he => hne ?_, hi, hj, (accepts_iff_takers (h.plain m hmem)).mpr hm,
      (accepts_iff_takers (h.plain m' hmem')).mpr hm'⟩
    subst he
    exact Option.some.inj (hi.symm.trans hj)

variable {ctx : FieldSite}

theorem fixed_eq {type type' : FixedBytes} (h : OfField ctx (.fixed type))
    (h' : OfField ctx (.fixed type')) : type = type' := by
  cases Except.ok.inj (h.symm.trans h')
  rfl

theorem decimal_eq {precision scale precision' scale' : Nat}
    (h : OfField ctx (.logical (.decimal precision scale)))
    (h' : OfField ctx (.logical (.decimal precision' scale'))) :
    precision = precision' ∧ scale = scale' := by
  cases Except.ok.inj (h.symm.trans h')
  exact ⟨rfl, rfl⟩

/-- A value that two different alternatives take is ambiguous. -/
theorem ambiguous_of_takers {d m m' : Descriptor} (h : d.Canonical)
    (hfield : ∀ m ∈ d.alternatives, m.OfField ctx) (hm : m ∈ d.alternatives)
    (hm' : m' ∈ d.alternatives) (hne : m ≠ m') {v : Value} (hv : Takers v m) (hv' : Takers v m') :
    d.Ambiguous v := by
  cases v with
  | int32 n =>
      rcases hv with rfl | rfl <;> rcases hv' with rfl | rfl
      · exact absurd rfl hne
      · exact ⟨hm, hm'⟩
      · exact ⟨hm', hm⟩
      · exact absurd rfl hne
  | float32 x =>
      obtain ⟨hx, hv⟩ := hv
      rcases hv with rfl | rfl <;> rcases hv'.2 with rfl | rfl
      · exact absurd rfl hne
      · exact ⟨hx, hm, hm'⟩
      · exact ⟨hx, hm', hm⟩
      · exact absurd rfl hne
  | float64 x =>
      obtain ⟨hx, hv⟩ := hv
      rcases hv with ⟨rfl, hle⟩ | rfl <;> rcases hv'.2 with ⟨rfl, hle⟩ | rfl
      · exact absurd rfl hne
      · exact ⟨hx, hle, hm, hm'⟩
      · exact ⟨hx, hle, hm', hm⟩
      · exact absurd rfl hne
  | enum s =>
      obtain ⟨e, rfl, hs⟩ := hv
      obtain ⟨e', rfl, hs'⟩ := hv'
      exact ⟨e, e', fun he => hne (congrArg _ he), hm, hm', hs, hs'⟩
  | decimal x =>
      -- their precision is that of the field
      obtain ⟨precision, rfl, -⟩ := hv
      obtain ⟨precision', rfl, -⟩ := hv'
      exact absurd (congrArg _ (congrArg₂ _ (decimal_eq (hfield _ hm) (hfield _ hm')).1 rfl)) hne
  | fixed bs =>
      obtain ⟨name, rfl⟩ := hv
      obtain ⟨name', rfl⟩ := hv'
      exact absurd (congrArg _ (fixed_eq (hfield _ hm) (hfield _ hm'))) hne
  | array vs =>
      obtain ⟨items, rfl, -⟩ := hv
      obtain ⟨items', rfl, -⟩ := hv'
      exact absurd (h.eq_of_identity hm hm' rfl rfl rfl) hne
  | map entries =>
      obtain ⟨values, rfl, -⟩ := hv
      obtain ⟨values', rfl, -⟩ := hv'
      exact absurd (h.eq_of_identity hm hm' rfl rfl rfl) hne
  | _ => exact absurd (hv.trans hv'.symm) hne

/-- What is ambiguous is taken by two different alternatives. -/
theorem exists_takers_of_ambiguous {d : Descriptor} {v : Value} (h : d.Ambiguous v) :
    ∃ m ∈ d.alternatives, ∃ m' ∈ d.alternatives, m ≠ m' ∧ Takers v m ∧ Takers v m' := by
  cases v with
  | int32 n => exact ⟨_, h.1, _, h.2, by simp, .inl rfl, .inr rfl⟩
  | float32 x =>
      obtain ⟨hx, h32, h64⟩ := h
      exact ⟨_, h32, _, h64, by simp, ⟨hx, .inl rfl⟩, ⟨hx, .inr rfl⟩⟩
  | float64 x =>
      obtain ⟨hx, hle, h32, h64⟩ := h
      exact ⟨_, h32, _, h64, by simp, ⟨hx, .inl ⟨rfl, hle⟩⟩, ⟨hx, .inr rfl⟩⟩
  | enum s =>
      obtain ⟨e, e', hne, he, he', hs, hs'⟩ := h
      exact ⟨_, he, _, he', fun heq => hne (enum.inj heq), ⟨e, rfl, hs⟩, ⟨e', rfl, hs'⟩⟩
  | _ => cases h

end Descriptor

/-- **Two alternatives of a settled type take a value exactly when it is ambiguous for the type**,
wherever in the type of a field this type stands. -/
theorem Field.ambiguous_iff {record : String} {order : Nat} {d : DeclaredField} {f : Field}
    (h : Field.ofDeclaration record order d = .ok f) {e : Descriptor}
    (he : Descriptor.Within e f.type) (v : Value) : e.TakenTwice v ↔ e.Ambiguous v := by
  have hcanonical := (Field.ofDeclaration_canonical h).within he
  have hfield : ∀ m ∈ e.alternatives, m.OfField (d.site record) := by
    intro m hm
    cases hnull : m.isNull with
    | true =>
        rw [(Descriptor.isNull_iff m).mp hnull]
        trivial
    | false =>
        have hwithin := Descriptor.within_of_mem_alternatives hnull hm .refl
        exact Field.ofDeclaration_ofField h m (hwithin.trans he)
  rw [hcanonical.flatAlternatives.takenTwice_iff]
  constructor
  · rintro ⟨m, hm, m', hm', hne, hv, hv'⟩
    exact Descriptor.ambiguous_of_takers hcanonical hfield hm hm' hne hv hv'
  · exact Descriptor.exists_takers_of_ambiguous

/-! ### A list of readings -/

/-- Readings: whole numbers and others, of 32 and of 64 bits, or one of two enumerations with a
symbol in common. -/
def readingsField : DeclaredField :=
  ⟨"readings", .list (.optional (.union [.int32, .int64, .union [.float32, .float64],
    .enum "Low" ["off", "weak"] none, .enum "High" ["strong", "off"] none])), none,
    ⟨none, none, none, none, none, []⟩⟩

/-- The type of a reading. -/
def reading : Descriptor :=
  .optional (.union [.primitive .int32, .primitive .int64, .primitive .float32,
    .primitive .float64, .enum ⟨"Low", ["off", "weak"], none⟩,
    .enum ⟨"High", ["strong", "off"], none⟩])

theorem ofDeclaration_readingsField :
    Field.ofDeclaration "Sensor" 0 readingsField =
      .ok ⟨"readings", .array reading, none, 0, none, []⟩ := by
  with_unfolding_all rfl

theorem alternatives_reading :
    reading.alternatives = [.null, .primitive .int32, .primitive .int64, .primitive .float32,
      .primitive .float64, .enum ⟨"Low", ["off", "weak"], none⟩,
      .enum ⟨"High", ["strong", "off"], none⟩] := by
  with_unfolding_all rfl

/-- A reading of 32 bits, zero, and the symbol in common are ambiguous; a reading of 64 bits, the
infinity, any other symbol and null are not. -/
theorem readings_ambiguous :
    Field.ofDeclaration "Sensor" 0 readingsField =
      .ok ⟨"readings", .array reading, none, 0, none, []⟩ ∧
    Descriptor.Within reading (.array reading) ∧
    reading.TakenTwice (.int32 5) ∧ reading.TakenTwice (.float64 ⟨0⟩) ∧
    reading.TakenTwice (.enum "off") ∧ ¬ reading.TakenTwice (.int64 5) ∧
    ¬ reading.TakenTwice (.float32 ⟨0x7f800000⟩) ∧ ¬ reading.TakenTwice (.enum "weak") ∧
    ¬ reading.TakenTwice .null := by
  have hwithin : Descriptor.Within reading (.array reading) := .items .refl
  have hiff := Field.ambiguous_iff ofDeclaration_readingsField hwithin
  simp only [hiff, Descriptor.Ambiguous, alternatives_reading]
  refine ⟨ofDeclaration_readingsField, hwithin, by decide, ⟨by decide, ?_, by decide⟩, ?_,
    id, fun h => absurd h.1 (by decide), ?_, id⟩
  · rw [Binary.size, show (⟨0⟩ : Binary64).significand = 0 by decide]
    norm_num
  · exact ⟨⟨"Low", ["off", "weak"], none⟩, ⟨"High", ["strong", "off"], none⟩, by decide,
      by decide, by decide, by decide, by decide⟩
  · rintro ⟨e, e', hne, he, he', hs, hs'⟩
    simp only [List.mem_cons, Descriptor.enum.injEq, reduceCtorEq, false_or, List.not_mem_nil,
      or_false] at he he'
    rcases he with rfl | rfl <;> rcases he' with rfl | rfl <;> simp_all

end RecordModel
