/-
**Types inside types.**

A type has other types within it: the items of a collection, the members of a union, what an
optional type wraps.  A reference to a record ends there; the types of the record are not within it.

What the settling of a declaration checks it checks at every place, so that every type within the
type of a settled field has passed its check.

Main definitions:

* `Descriptor.Within` — a type within another;
* `Descriptor.Sound`, `Descriptor.Checked` — the checks of a type by itself, and of all within it.

Main results:

* `Descriptor.induction_alternatives` — induction over types with unions and optional types as one
  case;
* `Descriptor.within_of_mem_alternatives`, `Descriptor.exists_alternative_within` — what is within a
  type is within an alternative of it;
* `Descriptor.ofDeclared_checked`, `Record.ofDeclaration_checked` — a settled type has passed its
  checks.
-/

import RecordModel.Declaration.Settled
import RecordModel.Proofs.Outcomes

set_option relaxedAutoImplicit false
set_option autoImplicit false

namespace RecordModel

namespace Descriptor

/-! ### Induction -/

/-- Induction over types: a union and an optional type come from their alternatives. -/
theorem induction_alternatives {P : Descriptor → Prop}
    (primitive : ∀ kind, P (.primitive kind)) (logical : ∀ kind, P (.logical kind))
    (fixed : ∀ type, P (.fixed type)) (enum : ∀ type, P (.enum type))
    (array : ∀ items, P items → P (.array items)) (map : ∀ values, P values → P (.map values))
    (choice : ∀ d : Descriptor, d.hasAlternatives = true → (∀ m ∈ d.alternatives, P m) → P d)
    (reference : ∀ record, P (.reference record)) (d : Descriptor) : P d := by
  -- the alternatives of an optional type are no parts of it, but they are nested less deep
  suffices h : ∀ n (d : Descriptor), height d = n → P d from h _ d rfl
  intro n
  induction n using Nat.strongRecOn with
  | _ n ih =>
      rintro d rfl
      cases d with
      | primitive kind => exact primitive kind
      | logical kind => exact logical kind
      | fixed type => exact fixed type
      | enum type => exact enum type
      | array items => exact array items (ih _ (by simp [height]) items rfl)
      | map values => exact map values (ih _ (by simp [height]) values rfl)
      | union members =>
          exact choice _ rfl fun m hm => ih _ (height_lt_of_mem_union hm) m rfl
      | optional inner =>
          exact choice _ rfl fun m hm => ih _ (height_lt_of_mem_optional hm) m rfl
      | reference record => exact reference record

/-! ### Types within types -/

/-- `Within e d`: the type `e` stands somewhere in the type `d`. -/
inductive Within (e : Descriptor) : Descriptor → Prop
  | refl : Within e e
  | items {items : Descriptor} : Within e items → Within e (.array items)
  | values {values : Descriptor} : Within e values → Within e (.map values)
  | member {members : List Descriptor} {m : Descriptor} :
      m ∈ members → Within e m → Within e (.union members)
  | inner {inner : Descriptor} : Within e inner → Within e (.optional inner)

theorem Within.trans {a b c : Descriptor} (hab : Within a b) (hbc : Within b c) : Within a c := by
  induction hbc with
  | refl => exact hab
  | items _ ih => exact .items ih
  | values _ ih => exact .values ih
  | member hm _ ih => exact .member hm ih
  | inner _ ih => exact .inner ih

/-- Whether a type has a name in schemas: an enumeration, fixed bytes or a record. -/
def isNamed : Descriptor → Bool
  | .fixed _ => true
  | .enum _ => true
  | .reference _ => true
  | _ => false

theorem null_mem_alternatives {d : Descriptor} (h : d.isOptional = true) :
    null ∈ d.alternatives := by
  cases d with
  | optional inner =>
      rw [alternatives_optional]
      exact List.mem_cons_self ..
  | _ => simp [isOptional] at h

theorem isNull_of_isNamed {d : Descriptor} (h : d.isNamed = true) : d.isNull = false := by
  cases d <;> first | rfl | cases h

/-- A type within an alternative of a type is within the type, unless it is that of null. -/
theorem within_of_mem_alternatives {e m d : Descriptor} (he : e.isNull = false)
    (hm : m ∈ d.alternatives) (hw : Within e m) : Within e d := by
  fun_induction alternatives d with
  | case1 ms => exact .member hm hw
  | case2 inner ih =>
      rcases List.mem_cons.mp hm with rfl | hm
      · -- nothing but null is within null
        cases hw
        cases he
      · exact .inner (ih (List.mem_filter.mp hm).1)
  | case3 d => exact List.mem_singleton.mp hm ▸ hw

/-- A named type within a type is within an alternative of it. -/
theorem exists_alternative_within {e d : Descriptor} (he : e.isNamed = true) (hw : Within e d) :
    ∃ m ∈ d.alternatives, Within e m := by
  fun_induction alternatives d with
  | case1 ms =>
      cases hw with
      | refl => simp [isNamed] at he
      | member hm hw => exact ⟨_, hm, hw⟩
  | case2 inner ih =>
      cases hw with
      | refl => simp [isNamed] at he
      | inner hw =>
          obtain ⟨m, hm, hw⟩ := ih hw
          refine ⟨m, List.mem_cons_of_mem _ (List.mem_filter.mpr ⟨hm, ?_⟩), hw⟩
          cases hn : m.isNull with
          | false => rfl
          | true =>
              rw [(isNull_iff m).mp hn] at hw
              cases hw
              simp [isNamed] at he
  | case3 d => exact ⟨d, List.mem_singleton_self d, hw⟩

/-! ### Checked types -/

/-- The check of a type by itself: a decimal has digits behind the point and not too many digits,
fixed bytes are not empty, and an enumeration has distinct symbols, its default among them. -/
def Sound : Descriptor → Prop
  | .logical (.decimal precision scale) => 0 < scale ∧ scale ≤ precision ∧ precision ≤ mostPrecision
  | .fixed type => 0 < type.size
  | .enum type => type.symbols ≠ [] ∧ type.symbols.Nodup ∧ ∀ s ∈ type.default, s ∈ type.symbols
  | _ => True

/-- Every type within the type has passed its check. -/
def Checked (d : Descriptor) : Prop := ∀ e, Within e d → e.Sound

theorem Checked.sound {d : Descriptor} (h : d.Checked) : d.Sound := h d .refl

theorem Checked.within {d e : Descriptor} (h : d.Checked) (hw : Within e d) : e.Checked :=
  fun e' he' => h e' (he'.trans hw)

theorem checked_null : Checked null := by
  intro e he
  cases he
  trivial

theorem checked_array {items : Descriptor} (h : items.Checked) : Checked (.array items) := by
  intro e he
  cases he with
  | refl => trivial
  | items he => exact h e he

theorem checked_map {values : Descriptor} (h : values.Checked) : Checked (.map values) := by
  intro e he
  cases he with
  | refl => trivial
  | values he => exact h e he

theorem checked_union {members : List Descriptor} (h : ∀ m ∈ members, m.Checked) :
    Checked (.union members) := by
  intro e he
  cases he with
  | refl => trivial
  | member hm he => exact h _ hm e he

theorem checked_optional {inner : Descriptor} (h : inner.Checked) :
    Checked (.optional inner) := by
  intro e he
  cases he with
  | refl => trivial
  | inner he => exact h e he

theorem checked_leaf {d : Descriptor} (h : d.Sound) (hl : ∀ e, Within e d → e = d) : d.Checked :=
  fun e he => hl e he ▸ h

/-- The alternatives of a checked type are checked. -/
theorem Checked.of_mem_alternatives {d : Descriptor} (h : d.Checked) :
    ∀ m ∈ d.alternatives, m.Checked := by
  fun_induction alternatives d with
  | case1 ms => exact fun m hm => h.within (.member hm .refl)
  | case2 inner ih =>
      intro m hm
      rcases List.mem_cons.mp hm with rfl | hm
      · exact checked_null
      · exact ih (h.within (.inner .refl)) m (List.mem_filter.mp hm).1
  | case3 d => exact fun m hm => List.mem_singleton.mp hm ▸ h

/-- What a checked type contributes to a union is checked. -/
theorem Checked.spliced {d : Descriptor} (h : d.Checked) : ∀ m ∈ d.spliced, m.Checked := by
  intro m hm
  unfold Descriptor.spliced at hm
  split at hm
  · exact h.within (.member hm .refl)
  · rcases List.mem_cons.mp hm with rfl | hm
    · exact checked_null
    · exact h.within (.inner (.member hm .refl))
  · rcases List.mem_cons.mp hm with rfl | hm
    · exact checked_null
    · exact List.mem_singleton.mp hm ▸ h.within (.inner .refl)
  · exact List.mem_singleton.mp hm ▸ h

/-- The optional type of a checked type is checked. -/
theorem Checked.asOptional {d : Descriptor} (h : d.Checked) : d.asOptional.Checked := by
  unfold Descriptor.asOptional
  split
  · exact h
  · exact checked_null
  · rename_i members
    have hms : ∀ m ∈ members.filter (fun m => !m.isNull), m.Checked :=
      fun m hm => h.within (.member (List.mem_filter.mp hm).1 .refl)
    split
    · exact checked_null
    · rename_i m hf
      exact checked_optional (hms m (hf ▸ List.mem_singleton_self m))
    · exact checked_optional (checked_union hms)
  · exact checked_optional h

/-! ### Settled types -/

theorem ofDecimal_checked {a : FieldAttributes} {d : Descriptor} (h : ofDecimal a = .ok d) :
    d.Checked := by
  unfold ofDecimal at h
  split at h
  · cases h
  · cases h
  · split at h
    · cases h
    · split at h
      · cases h
      · split at h
        · cases h
        · cases h
          exact checked_leaf ⟨by omega, by omega, by omega⟩ fun e he => by cases he; rfl

theorem ofFixed_checked {ctx : FieldSite} {d : Descriptor} (h : ofFixed ctx = .ok d) :
    d.Checked := by
  unfold ofFixed at h
  split at h
  · cases h
  · cases h
  · rename_i size hz _
    cases h
    exact checked_leaf (Nat.pos_of_ne_zero hz) fun e he => by cases he; rfl

theorem ofEnum_checked {ctx : FieldSite} {name : String} {symbols : List String}
    {default : Option String} {d : Descriptor} (h : ofEnum ctx name symbols default = .ok d) :
    d.Checked := by
  unfold ofEnum at h
  split at h
  · cases h
  · rename_i hne
    split at h
    · cases h
    · rename_i hrep
      split at h
      · cases h
      · rename_i hdef
        cases h
        refine checked_leaf ⟨?_, (repeated?_eq_none_iff symbols).mp hrep, ?_⟩
          fun e he => by cases he; rfl
        · intro hnil
          exact hne (List.isEmpty_iff.mpr hnil)
        · intro s hs
          have := Option.filter_eq_none_iff.mp hdef s hs
          simpa using this

theorem ofUnion_checked {types : List Descriptor} {d : Descriptor} (h : ofUnion types = .ok d)
    (ht : ∀ t ∈ types, t.Checked) : d.Checked := by
  unfold ofUnion at h
  simp only at h
  split at h
  · cases h
  · cases h
    refine checked_union fun m hm => ?_
    obtain ⟨t, ht', hm⟩ := List.mem_flatMap.mp hm
    exact (ht t ht').spliced m hm

mutual

/-- A settled type has passed the checks at every place in it. -/
theorem ofDeclared_checked (ctx : FieldSite) (t : DeclaredType) {d : Descriptor}
    (h : ofDeclared ctx t = .ok d) : d.Checked := by
  cases t with
  | decimal => exact ofDecimal_checked (by simpa [ofDeclared] using h)
  | fixed => exact ofFixed_checked (by simpa [ofDeclared] using h)
  | enum name symbols default => exact ofEnum_checked (by simpa [ofDeclared] using h)
  | list items =>
      rw [ofDeclared] at h
      obtain ⟨i, hi, rfl⟩ := exists_of_map_eq_ok h
      exact checked_array (ofDeclared_checked ctx items hi)
  | tuple items =>
      rw [ofDeclared] at h
      obtain ⟨i, hi, rfl⟩ := exists_of_map_eq_ok h
      exact checked_array (ofDeclared_checked ctx items hi)
  | dict values =>
      rw [ofDeclared] at h
      obtain ⟨v, hv, rfl⟩ := exists_of_map_eq_ok h
      exact checked_map (ofDeclared_checked ctx values hv)
  | union members =>
      cases members with
      | nil => simp [ofDeclared] at h
      | cons t rest =>
          rw [ofDeclared] at h
          obtain ⟨first, ht, h⟩ := exists_of_bind_eq_ok h
          obtain ⟨others, hr, h⟩ := exists_of_bind_eq_ok h
          refine ofUnion_checked h fun m hm => ?_
          rcases List.mem_cons.mp hm with rfl | hm
          · exact ofDeclared_checked ctx t ht
          · exact ofDeclaredList_checked ctx rest hr m hm
  | optional inner =>
      rw [ofDeclared] at h
      obtain ⟨i, hi, rfl⟩ := exists_of_map_eq_ok h
      exact (ofDeclared_checked ctx inner hi).asOptional
  | record name =>
      rw [ofDeclared] at h
      split at h
      · cases h
      · cases h
        exact checked_leaf trivial fun e he => by cases he; rfl
  | _ =>
      simp only [ofDeclared, Except.ok.injEq] at h
      subst h
      exact checked_leaf trivial fun e he => by cases he; rfl

/-- Settled types have passed the checks. -/
theorem ofDeclaredList_checked (ctx : FieldSite) (ts : List DeclaredType) {ds : List Descriptor}
    (h : ofDeclaredList ctx ts = .ok ds) : ∀ d ∈ ds, d.Checked := by
  cases ts with
  | nil =>
      simp only [ofDeclaredList, Except.ok.injEq] at h
      simp [← h]
  | cons t rest =>
      rw [ofDeclaredList] at h
      obtain ⟨first, ht, h⟩ := exists_of_bind_eq_ok h
      obtain ⟨others, hr, h⟩ := exists_of_bind_eq_ok h
      cases h
      intro d hd
      rcases List.mem_cons.mp hd with rfl | hd
      · exact ofDeclared_checked ctx t ht
      · exact ofDeclaredList_checked ctx rest hr d hd

end

theorem Checked.withDefault {d : Descriptor} (h : d.Checked) (default : Option Value) :
    (d.withDefault default).Checked := by
  unfold Descriptor.withDefault
  split
  · split
    · exact h
    · exact checked_optional h
  · exact h

end Descriptor

/-! ### Settled records -/

theorem DeclaredField.typeAndDefault_checked {record : String} {d : DeclaredField}
    {p : Descriptor × Option Value} (h : d.typeAndDefault record = .ok p) : p.1.Checked := by
  unfold DeclaredField.typeAndDefault at h
  obtain ⟨settled, ht, h⟩ := exists_of_bind_eq_ok h
  have hc := Descriptor.ofDeclared_checked _ d.type ht
  simp only at h
  split at h
  · cases h
    exact hc.withDefault _
  · obtain ⟨v, -, h⟩ := exists_of_bind_eq_ok h
    cases h
    exact hc.withDefault _

theorem Field.ofDeclaration_checked {record : String} {order : Nat} {d : DeclaredField} {f : Field}
    (h : Field.ofDeclaration record order d = .ok f) : f.type.Checked := by
  unfold Field.ofDeclaration at h
  split at h
  · cases h
  · rename_i hp
    cases h
    exact DeclaredField.typeAndDefault_checked hp

theorem Field.ofDeclarations_checked {record : String} {seen : List String}
    {ds : List DeclaredField} {fields : List Field}
    (h : Field.ofDeclarations record seen ds = .ok fields) : ∀ f ∈ fields, f.type.Checked := by
  induction ds generalizing seen fields with
  | nil =>
      simp only [Field.ofDeclarations, Except.ok.injEq] at h
      simp [← h]
  | cons d rest ih =>
      rw [Field.ofDeclarations] at h
      split at h
      · cases h
      · obtain ⟨field, hf, h⟩ := exists_of_bind_eq_ok h
        obtain ⟨others, hr, h⟩ := exists_of_bind_eq_ok h
        cases h
        intro f hm
        rcases List.mem_cons.mp hm with rfl | hm
        · exact Field.ofDeclaration_checked hf
        · exact ih hr f hm

theorem Record.ofDeclaration_checked {d : DeclaredRecord} {r : Record}
    (h : Record.ofDeclaration d = .ok r) : ∀ f ∈ r.fields, f.type.Checked := by
  unfold Record.ofDeclaration at h
  split at h
  · cases h
  · obtain ⟨fields, hf, rfl⟩ := exists_of_map_eq_ok h
    exact Field.ofDeclarations_checked hf

end RecordModel
