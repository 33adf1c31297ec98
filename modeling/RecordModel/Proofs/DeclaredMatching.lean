/-
**Values that match a declared type.**

A declared type is settled into another form: null moves to the front, unions are spliced into each
other, a union of one member or of none but null disappears.  The values are the same.  A value
matches a type as it is declared when it follows the declaration as written, an optional type taking
null besides, and a union what one of its members takes; nothing of the settled type is in this but
the types without parts.

Main definitions:

* `DeclaredType.Matches` — the values of a type as it is declared;
* `Descriptor.ByAlternatives` — properties of types that go by their alternatives.

Main results:

* `DeclaredType.matches_union_iff` and its siblings — the values by the form of the type;
* `Descriptor.ByAlternatives.union_spliced`, `Descriptor.ByAlternatives.asOptional` — what splicing
  types into a union and making a type optional keep;
* `Descriptor.accepts_iff_matches` — **a settled type takes the values that match the declaration**.
-/

import RecordModel.Proofs.CanonicalTypes

set_option relaxedAutoImplicit false
set_option autoImplicit false

namespace RecordModel

/-! ### Values of a declaration -/

/-- The value matches the type as it is declared for the field. -/
inductive DeclaredType.Matches (ctx : FieldSite) : DeclaredType → Value → Prop
  | leaf {t : DeclaredType} {d : Descriptor} {v : Value} :
      t.isScalar = true → Descriptor.ofDeclared ctx t = .ok d → d.accepts v = true → Matches ctx t v
  | items {t items : DeclaredType} {vs : List Value} :
      t.items? = some items → (∀ v ∈ vs, Matches ctx items v) → Matches ctx t (.array vs)
  | dict {values : DeclaredType} {entries : List (String × Value)} :
      (∀ e ∈ entries, Matches ctx values e.2) → Matches ctx (.dict values) (.map entries)
  | member {t : DeclaredType} {ts : List DeclaredType} {v : Value} :
      t ∈ ts → Matches ctx t v → Matches ctx (.union ts) v
  | absent {inner : DeclaredType} : Matches ctx (.optional inner) .null
  | present {inner : DeclaredType} {v : Value} :
      Matches ctx inner v → Matches ctx (.optional inner) v
  /-- An instance goes by its name; what is in it is not looked at. -/
  | record {t : DeclaredType} {name : String} {fields : List (String × Value)} :
      t.record? ctx.record = some name → Matches ctx t (.record ⟨name, fields⟩)

theorem Value.isNull_iff (v : Value) : v.isNull = true ↔ v = .null := by
  cases v <;> simp [isNull]

theorem DeclaredType.items?_of_record? {t : DeclaredType} {owner name : String}
    (h : t.record? owner = some name) : t.items? = none := by
  cases t <;> first | rfl | cases h

/-! ### Matching by the form of a type -/

namespace DeclaredType

variable {ctx : FieldSite} {v : Value}

theorem matches_scalar_iff {t : DeclaredType} {d : Descriptor} (ht : t.isScalar = true)
    (hd : Descriptor.ofDeclared ctx t = .ok d) : t.Matches ctx v ↔ d.accepts v = true := by
  refine ⟨fun hv => ?_, .leaf ht hd⟩
  cases hv with
  | leaf _ hd' hv =>
      cases hd.symm.trans hd'
      exact hv
  | items hi _ => exact absurd hi (by simp [items?_of_isScalar ht])
  | record hr => exact absurd hr (by simp [record?_of_isScalar ht])
  | _ => cases ht

theorem matches_items_iff {t items : DeclaredType} (hi : t.items? = some items) :
    t.Matches ctx v ↔ ∃ vs, v = .array vs ∧ ∀ w ∈ vs, items.Matches ctx w := by
  constructor
  · intro hv
    cases hv with
    | leaf ht _ _ => exact absurd hi (by simp [items?_of_isScalar ht])
    | items hi' hvs =>
        cases hi.symm.trans hi'
        exact ⟨_, rfl, hvs⟩
    | record hr => exact absurd hi (by simp [items?_of_record? hr])
    | _ => cases hi
  · rintro ⟨vs, rfl, hvs⟩
    exact .items hi hvs

theorem matches_dict_iff {values : DeclaredType} :
    (dict values).Matches ctx v ↔
      ∃ entries, v = .map entries ∧ ∀ e ∈ entries, values.Matches ctx e.2 := by
  constructor
  · intro hv
    cases hv with
    | dict hentries => exact ⟨_, rfl, hentries⟩
    | leaf h _ _ | items h _ | record h => cases h
  · rintro ⟨entries, rfl, hentries⟩
    exact .dict hentries

theorem matches_union_iff {ts : List DeclaredType} :
    (union ts).Matches ctx v ↔ ∃ t ∈ ts, t.Matches ctx v := by
  constructor
  · intro hv
    cases hv with
    | member ht hv => exact ⟨_, ht, hv⟩
    | leaf h _ _ | items h _ | record h => cases h
  · rintro ⟨t, ht, hv⟩
    exact .member ht hv

theorem matches_optional_iff {inner : DeclaredType} :
    (optional inner).Matches ctx v ↔ v = .null ∨ inner.Matches ctx v := by
  constructor
  · intro hv
    cases hv with
    | absent => exact .inl rfl
    | present hv => exact .inr hv
    | leaf h _ _ | items h _ | record h => cases h
  · rintro (rfl | hv)
    · exact .absent
    · exact .present hv

theorem matches_record_iff {t : DeclaredType} {name : String}
    (hname : t.record? ctx.record = some name) :
    t.Matches ctx v ↔ ∃ i : Instance Value, v = .record i ∧ i.record = name := by
  constructor
  · intro hv
    cases hv with
    | leaf ht _ _ => exact absurd hname (by simp [record?_of_isScalar ht])
    | items hi _ => exact absurd hi (by simp [items?_of_record? hname])
    | record hr =>
        cases hname.symm.trans hr
        exact ⟨_, rfl, rfl⟩
    | _ => cases hname
  · rintro ⟨⟨_, fields⟩, rfl, rfl⟩
    exact .record hname

end DeclaredType

namespace Descriptor

/-! ### Rewriting keeps the values -/

/-- A property of types that goes by alternatives: a union has it when a member has it, and an
optional type when null or the inner type has it. -/
structure ByAlternatives (P : Descriptor → Bool) : Prop where
  union : ∀ members, P (.union members) = members.any P
  optional : ∀ inner, P (.optional inner) = (P null || P inner)

namespace ByAlternatives

variable {P : Descriptor → Bool} (h : ByAlternatives P)

include h

/-- A type contributes to a union what has the property when the type has it. -/
theorem any_spliced (d : Descriptor) : d.spliced.any P = P d := by
  cases d with
  | union members => rw [spliced, h.union]
  | optional inner =>
      cases inner with
      | union members => rw [spliced, List.any_cons, h.optional, h.union]
      | _ =>
          rw [h.optional]
          simp [spliced]
  | _ => exact Bool.or_false _

theorem union_spliced (ds : List Descriptor) : P (.union (ds.flatMap spliced)) = ds.any P := by
  rw [h.union, List.any_flatMap]
  exact congrArg ds.any (funext h.any_spliced)

omit h in
/-- Beside null the members that are null can be left out. -/
theorem null_or_any_filter (ds : List Descriptor) :
    (P null || (ds.filter fun m => !m.isNull).any P) = (P null || ds.any P) := by
  cases hnull : P null with
  | true => rfl
  | false =>
      rw [Bool.false_or, Bool.false_or, List.any_filter]
      refine congrArg ds.any (funext fun m => ?_)
      cases hm : m.isNull with
      | false => rfl
      | true => rw [(isNull_iff m).mp hm, hnull, Bool.and_false]

/-- **The optional type of a type has the property when null or the type has it.** -/
theorem asOptional (d : Descriptor) : P d.asOptional = (P null || P d) := by
  unfold Descriptor.asOptional
  split
  · rw [h.optional, ← Bool.or_assoc, Bool.or_self]
  · exact (Bool.or_self _).symm
  · rename_i members
    rw [h.union, ← null_or_any_filter]
    generalize members.filter (fun m => !m.isNull) = rest
    split
    · rw [List.any_nil, Bool.or_false]
    · rw [h.optional, List.any_cons, List.any_nil, Bool.or_false]
    · rw [h.optional, h.union]
  · exact h.optional d

theorem any_alternatives (d : Descriptor) : d.alternatives.any P = P d := by
  fun_induction alternatives d with
  | case1 members => rw [h.union]
  | case2 inner ih => rw [List.any_cons, null_or_any_filter, ih, h.optional]
  | case3 d => exact Bool.or_false _

end ByAlternatives

theorem byAlternatives_accepts (v : Value) : ByAlternatives fun d => d.accepts v where
  union members := accepts_union members v
  optional inner := by rw [accepts_optional, accepts_null]

/-! ### The values of a settled type -/

theorem accepts_array_iff {items : Descriptor} {v : Value} :
    (array items).accepts v = true ↔ ∃ vs, v = .array vs ∧ ∀ w ∈ vs, items.accepts w = true := by
  cases v with
  | array vs => simp [accepts_array]
  | _ => simp [accepts]

theorem accepts_map_iff {values : Descriptor} {v : Value} :
    (map values).accepts v = true ↔
      ∃ entries, v = .map entries ∧ ∀ e ∈ entries, values.accepts e.2 = true := by
  cases v with
  | map entries => simp only [accepts_map, List.all_eq_true, Value.map.injEq, exists_eq_left']
  | _ => simp [accepts]

/-- **A settled type takes exactly the values that match its declaration.** -/
theorem accepts_iff_matches {ctx : FieldSite} {t : DeclaredType} {d : Descriptor}
    (h : ofDeclared ctx t = .ok d) (v : Value) : d.accepts v = true ↔ t.Matches ctx v := by
  refine ofDeclared_induction (P := fun t d => ∀ v, d.accepts v = true ↔ t.Matches ctx v)
    ?scalar ?items ?dict ?union ?optional ?record h v
  case scalar => exact fun t d ht hd v => (DeclaredType.matches_scalar_iff ht hd).symm
  case items =>
    intro t items d hi _ ih v
    rw [accepts_array_iff, DeclaredType.matches_items_iff hi]
    simp only [ih]
  case dict =>
    intro values d _ ih v
    rw [accepts_map_iff, DeclaredType.matches_dict_iff]
    simp only [ih]
  case union =>
    intro ts ds _ hds _ v
    rw [(byAlternatives_accepts v).union_spliced, List.any_eq_true,
      DeclaredType.matches_union_iff]
    constructor
    · rintro ⟨d, hd, hv⟩
      obtain ⟨t, ht, -, ih⟩ := exists_left_of_forall₂ hds hd
      exact ⟨t, ht, (ih v).mp hv⟩
    · rintro ⟨t, ht, hv⟩
      obtain ⟨d, hd, -, ih⟩ := exists_right_of_forall₂ hds ht
      exact ⟨d, hd, (ih v).mpr hv⟩
  case optional =>
    intro inner d _ ih v
    rw [(byAlternatives_accepts v).asOptional, Bool.or_eq_true, ih, accepts_null, Value.isNull_iff,
      DeclaredType.matches_optional_iff]
  case record =>
    intro t name hname v
    rw [accepts_reference, DeclaredType.matches_record_iff hname]

/-- An instance of the record being declared matches the type as it is nested, and is taken by the
flat union that it becomes. -/
theorem accepts_nested_self :
    let ctx : FieldSite := ⟨"Car", "tour", ⟨none, none, none, none, none, []⟩⟩
    let t : DeclaredType := .union [.optional (.union [.null, .record "Bus"]), .self]
    let d : Descriptor := .union [.null, .reference "Bus", .reference "Car"]
    ofDeclared ctx t = .ok d ∧
      (d.accepts (.record ⟨"Car", []⟩) = true ↔ t.Matches ctx (.record ⟨"Car", []⟩)) ∧
      t.Matches ctx (.record ⟨"Car", []⟩) := by
  intro ctx t d
  have ht : ofDeclared ctx t = .ok d := by with_unfolding_all rfl
  exact ⟨ht, accepts_iff_matches ht _, (accepts_iff_matches ht _).mp (by with_unfolding_all rfl)⟩

end Descriptor

end RecordModel
