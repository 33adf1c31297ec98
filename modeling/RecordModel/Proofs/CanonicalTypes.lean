/-
**Types in canonical form.**

The settling of a declaration leaves one way to write a type.  The members of a union are no unions
and no optional types, because theirs are spliced into it, and an optional type wraps neither null
nor another optional type, nor a union in which null stands or which has one member.  So the
alternatives of a settled type are distinct, and none of them has alternatives of its own.

A schema lists the alternatives of a type as the members of a union.  At every place of the schema
of a record the type is that of a settled field or a part of it, and the members are as flat as its
alternatives.

Main definitions:

* `Descriptor.Everywhere` — what holds of every type within a type;
* `Descriptor.Flat`, `Descriptor.Canonical` — the form of a type by itself, and of all within it;
* `Descriptor.FlatAlternatives` — types whose alternatives are distinct and plain;
* `Schema.FlatUnions` — schemas whose unions have no union as a member, and null once.

Main results:

* `Descriptor.ofDeclared_induction` — induction over the types that declared types become;
* `Descriptor.ofDeclared_canonical` — a settled type is canonical;
* `Descriptor.Canonical.flatAlternatives` — the alternatives of a canonical type are flat;
* `canonical_of_settled` — **the types of settled fields are canonical, and the schemas that are
  made of them are flat**.
-/

import RecordModel.Proofs.AcceptedValues
import RecordModel.Proofs.NamedOnce

set_option relaxedAutoImplicit false
set_option autoImplicit false

namespace RecordModel

namespace Descriptor

/-! ### Induction over settled types -/

/-- A union is made of what its members contribute, and these differ in what they must not
share. -/
theorem ofUnion_eq_ok_iff {types : List Descriptor} {d : Descriptor} :
    ofUnion types = .ok d ↔
      ((types.flatMap spliced).map identity).Nodup ∧ d = .union (types.flatMap spliced) := by
  rw [ofUnion, ← repeated?_eq_none_iff]
  cases repeated? ((types.flatMap spliced).map identity) with
  | some identity => simp
  | none => simp [eq_comm]

theorem forall₂_of_ofDeclaredList {ctx : FieldSite} {ts : List DeclaredType}
    {ds : List Descriptor} (h : ofDeclaredList ctx ts = .ok ds) :
    List.Forall₂ (fun t d => ofDeclared ctx t = .ok d) ts ds := by
  induction ts generalizing ds with
  | nil =>
      cases h
      exact .nil
  | cons t rest ih =>
      rw [ofDeclaredList] at h
      obtain ⟨d, hd, h⟩ := exists_of_bind_eq_ok h
      obtain ⟨ds', hds, h⟩ := exists_of_bind_eq_ok h
      cases h
      exact .cons hd (ih hds)

/-- The types of the members of a union, and what becomes of them. -/
theorem exists_of_ofDeclared_union {ctx : FieldSite} {ts : List DeclaredType} {d : Descriptor}
    (h : ofDeclared ctx (.union ts) = .ok d) :
    ∃ ds, ts ≠ [] ∧ List.Forall₂ (fun t d => ofDeclared ctx t = .ok d) ts ds ∧
      ((ds.flatMap spliced).map identity).Nodup ∧ d = .union (ds.flatMap spliced) := by
  cases ts with
  | nil => cases h
  | cons t rest =>
      rw [ofDeclared] at h
      obtain ⟨first, ht, h⟩ := exists_of_bind_eq_ok h
      obtain ⟨others, hr, h⟩ := exists_of_bind_eq_ok h
      exact ⟨first :: others, List.cons_ne_nil _ _, .cons ht (forall₂_of_ofDeclaredList hr),
        ofUnion_eq_ok_iff.mp h⟩

/-- Whether a type has no parts and refers to no record. -/
def isLeaf : Descriptor → Bool
  | .primitive _ => true
  | .logical _ => true
  | .fixed _ => true
  | .enum _ => true
  | _ => false

/-- A declared type without parts becomes a type without parts. -/
theorem isLeaf_of_isScalar {ctx : FieldSite} {t : DeclaredType} {d : Descriptor}
    (ht : t.isScalar = true) (h : ofDeclared ctx t = .ok d) : d.isLeaf = true := by
  cases t with
  | decimal =>
      obtain ⟨precision, scale, rfl, -⟩ := exists_of_ofDecimal h
      rfl
  | fixed =>
      obtain ⟨type, rfl⟩ := exists_of_ofFixed h
      rfl
  | enum name symbols default =>
      obtain ⟨type, rfl⟩ := exists_of_ofEnum h
      rfl
  | _ => first | (cases h; rfl) | cases ht

/-- **Induction over the types that declared types become**, one case for each way to declare a
type; those without parts are one case. -/
theorem ofDeclared_induction {ctx : FieldSite} {P : DeclaredType → Descriptor → Prop}
    (scalar : ∀ t d, t.isScalar = true → ofDeclared ctx t = .ok d → P t d)
    (items : ∀ t items d, t.items? = some items → ofDeclared ctx items = .ok d → P items d →
      P t (.array d))
    (dict : ∀ values d, ofDeclared ctx values = .ok d → P values d → P (.dict values) (.map d))
    (union : ∀ ts ds, ts ≠ [] → List.Forall₂ (fun t d => ofDeclared ctx t = .ok d ∧ P t d) ts ds →
      ((ds.flatMap spliced).map identity).Nodup → P (.union ts) (.union (ds.flatMap spliced)))
    (optional : ∀ inner d, ofDeclared ctx inner = .ok d → P inner d →
      P (.optional inner) d.asOptional)
    (record : ∀ t name, t.record? ctx.record = some name → P t (.reference name))
    {t : DeclaredType} {d : Descriptor} (h : ofDeclared ctx t = .ok d) : P t d := by
  induction hn : sizeOf t using Nat.strongRecOn generalizing t d with
  | _ n ih =>
      subst hn
      cases t with
      | list t =>
          rw [ofDeclared] at h
          obtain ⟨i, hi, rfl⟩ := exists_of_map_eq_ok h
          exact items _ t i rfl hi (ih _ (by simp) hi rfl)
      | tuple t =>
          rw [ofDeclared] at h
          obtain ⟨i, hi, rfl⟩ := exists_of_map_eq_ok h
          exact items _ t i rfl hi (ih _ (by simp) hi rfl)
      | dict values =>
          rw [ofDeclared] at h
          obtain ⟨v, hv, rfl⟩ := exists_of_map_eq_ok h
          exact dict values v hv (ih _ (by simp) hv rfl)
      | union ts =>
          obtain ⟨ds, hne, hds, hdistinct, rfl⟩ := exists_of_ofDeclared_union h
          refine union ts ds hne (forall₂_imp_of_mem hds fun t ht d _ hd => ⟨hd, ?_⟩) hdistinct
          have hlt := List.sizeOf_lt_of_mem ht
          exact ih _ (by simp only [DeclaredType.union.sizeOf_spec]; omega) hd rfl
      | optional inner =>
          rw [ofDeclared] at h
          obtain ⟨i, hi, rfl⟩ := exists_of_map_eq_ok h
          exact optional inner i hi (ih _ (by simp) hi rfl)
      | record name =>
          rw [ofDeclared] at h
          split at h
          · cases h
          · cases h
            exact record _ name rfl
      | self =>
          cases h
          exact record _ _ rfl
      | _ => exact scalar _ d rfl h

/-! ### The form of a type -/

/-- What holds of every type within the type. -/
def Everywhere (P : Descriptor → Prop) (d : Descriptor) : Prop := ∀ e, Within e d → P e

/-- The members of a union in canonical form. -/
structure FlatMembers (members : List Descriptor) : Prop where
  ne_nil : members ≠ []
  distinct : (members.map identity).Nodup
  plain : ∀ m ∈ members, m.hasAlternatives = false

/-- The inner type of an optional type in canonical form. -/
structure FlatInner (inner : Descriptor) : Prop where
  notOptional : inner.isOptional = false
  notNull : inner.isNull = false
  /-- A union inside has no null, and more members than one. -/
  union : ∀ members, inner = .union members → null ∉ members ∧ 2 ≤ members.length

/-- The form of a type by itself: the alternatives of a union or an optional type have none of their
own. -/
def Flat : Descriptor → Prop
  | .union members => FlatMembers members
  | .optional inner => FlatInner inner
  | _ => True

/-- The type is written in the one way that is left after settling, at every place in it. -/
structure Canonical (d : Descriptor) : Prop where
  checked : d.Checked
  flat : d.Everywhere Flat

section

variable {P : Descriptor → Prop}

theorem Everywhere.self {d : Descriptor} (h : d.Everywhere P) : P d := h d .refl

theorem Everywhere.within {d e : Descriptor} (h : d.Everywhere P) (hw : Within e d) :
    e.Everywhere P :=
  fun e' he' => h e' (he'.trans hw)

theorem everywhere_leaf {d : Descriptor} (hd : d.isLeaf = true) (h : P d) : d.Everywhere P := by
  intro e he
  cases he with
  | refl => exact h
  | _ => cases hd

theorem everywhere_reference {name : String} (h : P (.reference name)) :
    Everywhere P (.reference name) := by
  intro e he
  cases he
  exact h

theorem everywhere_array {items : Descriptor} (h : P (.array items)) (hi : items.Everywhere P) :
    Everywhere P (.array items) := by
  intro e he
  cases he with
  | refl => exact h
  | items he => exact hi e he

theorem everywhere_map {values : Descriptor} (h : P (.map values)) (hv : values.Everywhere P) :
    Everywhere P (.map values) := by
  intro e he
  cases he with
  | refl => exact h
  | values he => exact hv e he

theorem everywhere_union {members : List Descriptor} (h : P (.union members))
    (hm : ∀ m ∈ members, m.Everywhere P) : Everywhere P (.union members) := by
  intro e he
  cases he with
  | refl => exact h
  | member hmem he => exact hm _ hmem e he

theorem everywhere_optional {inner : Descriptor} (h : P (.optional inner))
    (hi : inner.Everywhere P) : Everywhere P (.optional inner) := by
  intro e he
  cases he with
  | refl => exact h
  | inner he => exact hi e he

end

/-! ### Settled types are canonical -/

theorem isOptional_of_not_hasAlternatives {d : Descriptor} (h : d.hasAlternatives = false) :
    d.isOptional = false := by
  cases d <;> first | rfl | cases h

/-- What a flat type contributes to a union has no alternatives. -/
theorem Everywhere.spliced_plain {d m : Descriptor} (h : d.Everywhere Flat) (hm : m ∈ d.spliced) :
    m.hasAlternatives = false ∧ m.Everywhere Flat := by
  have hnull : null.hasAlternatives = false ∧ null.Everywhere Flat :=
    ⟨rfl, everywhere_leaf rfl trivial⟩
  cases d with
  | union members => exact ⟨h.self.plain m hm, h.within (.member hm .refl)⟩
  | optional inner =>
      have hinner : FlatInner inner := h.self
      cases inner with
      | union members =>
          rcases List.mem_cons.mp hm with rfl | hm
          · exact hnull
          · exact ⟨(h.within (.inner .refl)).self.plain m hm,
              h.within (.inner (.member hm .refl))⟩
      | optional inner => cases hinner.notOptional
      | _ =>
          rcases List.mem_cons.mp hm with rfl | hm
          · exact hnull
          · cases List.mem_singleton.mp hm
            exact ⟨rfl, h.within (.inner .refl)⟩
  | _ =>
      cases List.mem_singleton.mp hm
      exact ⟨rfl, h⟩

theorem Everywhere.spliced_ne_nil {d : Descriptor} (h : d.Everywhere Flat) : d.spliced ≠ [] := by
  cases d with
  | union members => exact h.self.ne_nil
  | optional inner => cases inner <;> exact List.cons_ne_nil _ _
  | _ => exact List.cons_ne_nil _ _

/-- The union of what flat types contribute is flat, when this is distinct. -/
theorem flat_union {ts : List DeclaredType} {ds : List Descriptor} (hne : ts ≠ [])
    (hds : List.Forall₂ (fun _ d => d.Everywhere Flat) ts ds)
    (hdistinct : ((ds.flatMap spliced).map identity).Nodup) :
    Everywhere Flat (.union (ds.flatMap spliced)) := by
  have hplain : ∀ m ∈ ds.flatMap spliced, m.hasAlternatives = false ∧ m.Everywhere Flat := by
    intro m hm
    obtain ⟨d, hd, hm⟩ := List.mem_flatMap.mp hm
    obtain ⟨_, -, hflat⟩ := exists_left_of_forall₂ hds hd
    exact hflat.spliced_plain hm
  refine everywhere_union ⟨?_, hdistinct, fun m hm => (hplain m hm).1⟩ fun m hm => (hplain m hm).2
  cases hds with
  | nil => exact absurd rfl hne
  | cons hd _ =>
      rw [List.flatMap_cons]
      exact List.append_ne_nil_of_left_ne_nil hd.spliced_ne_nil _

/-- The optional type of a flat type is flat. -/
theorem Everywhere.asOptional_flat {d : Descriptor} (h : d.Everywhere Flat) :
    d.asOptional.Everywhere Flat := by
  unfold Descriptor.asOptional
  split
  · exact h
  · exact h
  · rename_i members
    have hmembers : FlatMembers members := h.self
    have hfiltered : ∀ m ∈ members.filter (fun m => !m.isNull),
        m.hasAlternatives = false ∧ m.isNull = false ∧ m.Everywhere Flat := by
      intro m hm
      obtain ⟨hm, hnull⟩ := List.mem_filter.mp hm
      exact ⟨hmembers.plain m hm, by simpa using hnull, h.within (.member hm .refl)⟩
    have hdistinct : ((members.filter fun m => !m.isNull).map identity).Nodup :=
      hmembers.distinct.sublist (List.filter_sublist.map _)
    generalize members.filter (fun m => !m.isNull) = rest at hfiltered hdistinct
    split
    · exact everywhere_leaf rfl trivial
    · rename_i m
      obtain ⟨hplain, hnull, hflat⟩ := hfiltered m (List.mem_singleton_self m)
      refine everywhere_optional
        ⟨isOptional_of_not_hasAlternatives hplain, hnull, ?_⟩ hflat
      rintro members rfl
      cases hplain
    · rename_i hnil hone
      refine everywhere_optional ⟨rfl, rfl, ?_⟩ (everywhere_union
        ⟨hnil, hdistinct, fun m hm => (hfiltered m hm).1⟩ fun m hm => (hfiltered m hm).2.2)
      rintro _ ⟨⟩
      refine ⟨fun hm => absurd (hfiltered _ hm).2.1 (by decide), ?_⟩
      match rest, hnil, hone with
      | [], hnil, _ => exact absurd rfl hnil
      | [m], _, hone => exact absurd rfl (hone m)
      | _ :: _ :: _, _, _ => exact Nat.le_add_left 2 _
  · rename_i hoptional hnull hunion
    refine everywhere_optional ⟨?_, ?_, fun members hd => absurd hd (hunion members)⟩ h
    · cases d with
      | optional inner => exact absurd rfl (hoptional inner)
      | _ => rfl
    · rw [← Bool.not_eq_true, isNull_iff]
      exact hnull

/-- **A settled type is canonical.** -/
theorem ofDeclared_canonical {ctx : FieldSite} {t : DeclaredType} {d : Descriptor}
    (h : ofDeclared ctx t = .ok d) : d.Canonical where
  checked := ofDeclared_checked ctx t h
  flat := by
    refine ofDeclared_induction (P := fun _ d => d.Everywhere Flat)
      ?scalar ?items ?dict ?union ?optional ?record h
    case scalar =>
      intro t d ht hd
      have hleaf := isLeaf_of_isScalar ht hd
      refine everywhere_leaf hleaf ?_
      cases d <;> trivial
    case items => exact fun _ _ _ _ _ hd => everywhere_array trivial hd
    case dict => exact fun _ _ _ hd => everywhere_map trivial hd
    case union =>
      exact fun _ _ hne hds hdistinct => flat_union hne (hds.imp fun _ _ h => h.2) hdistinct
    case optional => exact fun _ _ _ hd => hd.asOptional_flat
    case record => exact fun _ _ _ => everywhere_reference trivial

/-- A null default leaves a canonical type canonical. -/
theorem Canonical.withDefault {d : Descriptor} (h : d.Canonical) (default : Option Value) :
    (d.withDefault default).Canonical := by
  refine ⟨h.checked.withDefault default, ?_⟩
  unfold Descriptor.withDefault
  split
  · split
    · exact h.flat
    · rename_i hother
      obtain ⟨halt, hnull⟩ := Bool.or_eq_false_iff.mp (by simpa using hother)
      refine everywhere_optional ⟨isOptional_of_not_hasAlternatives halt, hnull, ?_⟩ h.flat
      rintro members rfl
      cases halt
  · exact h.flat

end Descriptor

/-- The type of a settled field is canonical. -/
theorem Field.ofDeclaration_canonical {record : String} {order : Nat} {d : DeclaredField}
    {f : Field} (h : Field.ofDeclaration record order d = .ok f) : f.type.Canonical := by
  unfold Field.ofDeclaration at h
  split at h
  · cases h
  · rename_i type default htype
    cases h
    unfold DeclaredField.typeAndDefault at htype
    obtain ⟨settled, hsettled, htype⟩ := exists_of_bind_eq_ok htype
    have hcanonical := Descriptor.ofDeclared_canonical hsettled
    simp only at htype
    split at htype
    · cases htype
      exact hcanonical.withDefault _
    · obtain ⟨v, -, htype⟩ := exists_of_bind_eq_ok htype
      cases htype
      exact hcanonical.withDefault _

/-! ### Alternatives of canonical types -/

namespace Descriptor

theorem Canonical.within {d e : Descriptor} (h : d.Canonical) (hw : Within e d) : e.Canonical :=
  ⟨h.checked.within hw, h.flat.within hw⟩

/-- What a canonical type contributes to a union are its alternatives. -/
theorem Canonical.spliced_eq {d : Descriptor} (h : d.Canonical) : d.spliced = d.alternatives := by
  refine spliced_eq_alternatives d fun inner hd => ?_
  subst hd
  have hinner : FlatInner inner := h.flat.self
  refine ⟨hinner.notOptional, fun m hm => ?_⟩
  rw [Bool.not_eq_eq_eq_not, Bool.not_true, ← Bool.not_eq_true, isNull_iff]
  rintro rfl
  cases inner with
  | union members => exact (hinner.union members rfl).1 hm
  | optional inner => cases hinner.notOptional
  | primitive kind =>
      cases List.mem_singleton.mp hm
      cases hinner.notNull
  | _ => cases List.mem_singleton.mp hm

/-- The alternatives of a type are distinct and canonical, and have no alternatives of their
own. -/
structure FlatAlternatives (d : Descriptor) : Prop where
  nodup : d.alternatives.Nodup
  plain : ∀ m ∈ d.alternatives, m.hasAlternatives = false
  canonical : ∀ m ∈ d.alternatives, m.Canonical

theorem nodup_null_cons {ds : List Descriptor} (h : ds.Nodup) :
    (null :: ds.filter fun m => !m.isNull).Nodup := by
  refine List.nodup_cons.mpr ⟨fun hm => ?_, h.filter _⟩
  cases (List.mem_filter.mp hm).2

/-- **The alternatives of a canonical type are flat.** -/
theorem Canonical.flatAlternatives {d : Descriptor} (h : d.Canonical) : d.FlatAlternatives where
  nodup := by
    cases d with
    | union members => exact h.flat.self.distinct.of_map _
    | optional inner =>
        rw [alternatives_optional]
        refine nodup_null_cons ?_
        cases inner with
        | union members =>
            exact (h.flat.within (.inner .refl)).self.distinct.of_map _
        | optional inner => cases h.flat.self.notOptional
        | _ => exact List.nodup_singleton _
    | _ => exact List.nodup_singleton _
  plain := by
    intro m hm
    rw [← h.spliced_eq] at hm
    exact (h.flat.spliced_plain hm).1
  canonical := by
    intro m hm
    refine ⟨h.checked.of_mem_alternatives m hm, ?_⟩
    rw [← h.spliced_eq] at hm
    exact (h.flat.spliced_plain hm).2

end Descriptor

/-- The written alternatives are the alternatives in another order. -/
theorem writtenAlternatives_perm (d : Descriptor) (default : Option Value) :
    (writtenAlternatives d default).Perm d.alternatives := by
  unfold writtenAlternatives
  split
  · rename_i first rest halt
    rw [halt]
    split
    · exact List.perm_append_singleton first rest
    · rfl
  · rfl

/-- The written type of a settled field has flat alternatives. -/
theorem Field.writtenType_flatAlternatives {f : Field} (h : f.type.Canonical) :
    f.writtenType.FlatAlternatives := by
  have hflat := h.flatAlternatives
  unfold Field.writtenType
  split
  · have hperm := writtenAlternatives_perm f.type f.default
    exact ⟨hperm.nodup_iff.mpr hflat.nodup, fun m hm => hflat.plain m (hperm.mem_iff.mp hm),
      fun m hm => hflat.canonical m (hperm.mem_iff.mp hm)⟩
  · exact hflat

/-! ### Schemas of records -/

section

variable {answer : String → Except Error Record}

theorem Settled.canonical (ha : Settled answer) {name : String} {record : Record}
    (hr : answer name = .ok record) : ∀ f ∈ record.fields, f.type.Canonical := by
  obtain ⟨d, hd⟩ := (ha name record hr).declared
  intro f hf
  obtain ⟨_, -, _, hfield⟩ :=
    exists_left_of_forall₂ (Record.forall₂_of_ofDeclaration hd) hf
  exact Field.ofDeclaration_canonical hfield

/-- The parts of a type with flat alternatives have flat alternatives. -/
theorem Descriptor.FlatAlternatives.of_mem_children (ha : Settled answer) {d e : Descriptor}
    (h : d.FlatAlternatives) (he : e ∈ d.children answer) : e.FlatAlternatives := by
  cases d with
  | array items =>
      cases List.mem_singleton.mp he
      have hd := h.canonical _ (List.mem_singleton_self _)
      exact (hd.within (.items .refl)).flatAlternatives
  | map values =>
      cases List.mem_singleton.mp he
      have hd := h.canonical _ (List.mem_singleton_self _)
      exact (hd.within (.values .refl)).flatAlternatives
  | union members => exact (h.canonical e he).flatAlternatives
  | optional inner => exact (h.canonical e he).flatAlternatives
  | reference name =>
      cases hr : answer name with
      | error x => simp [Descriptor.children, hr] at he
      | ok record =>
          rw [Descriptor.children_reference hr] at he
          obtain ⟨f, hf, rfl⟩ := List.mem_map.mp he
          exact Field.writtenType_flatAlternatives (ha.canonical hr f hf)
  | _ => cases he

/-- **At the end of every path the type has flat alternatives.** -/
theorem Descriptor.FlatAlternatives.of_at? (ha : Settled answer) {d e : Descriptor}
    {path : List Nat} (h : d.FlatAlternatives) (he : d.at? answer path = some e) :
    e.FlatAlternatives := by
  induction path generalizing d with
  | nil =>
      cases he
      exact h
  | cons i path ih =>
      rw [Descriptor.at?_cons] at he
      obtain ⟨part, hi, he⟩ := Option.bind_eq_some_iff.mp he
      exact ih (h.of_mem_children ha (List.mem_of_getElem? hi)) he

variable {before : List (String × NamedDefinition)} {space : Option String}

theorem Renders.toUnion?_eq_none {d : Descriptor} {n : Schema} (h : Renders answer before space d n)
    (hd : d.hasAlternatives = false) : n.toUnion? = none := by
  cases h with
  | back _ _ => rfl
  | full hheads _ _ _ =>
      cases hheads with
      | union members hunion => exact absurd hunion (by simp [hd])
      | _ => rfl

theorem Renders.eq_null {d : Descriptor}
    (h : Renders answer before space d (.primitive .null)) : d = .null := by
  cases h with
  | full hheads _ _ _ =>
      cases hheads
      rfl

/-- The members of a union render the alternatives of a type, one by one. -/
theorem Renders.member {d : Descriptor} {members : List Schema}
    (h : Renders answer before space d (.union members)) {i : Nat} {m : Schema}
    (hm : members[i]? = some m) :
    ∃ e before', d.alternatives[i]? = some e ∧ Renders answer before' space e m := by
  cases h with
  | full hheads _ hlen hparts =>
      cases hheads with
      | union members hd =>
          rw [Descriptor.children_of_hasAlternatives answer hd] at hlen hparts
          obtain ⟨hi, -⟩ := List.getElem?_eq_some_iff.mp hm
          have he := List.getElem?_eq_getElem (show i < d.alternatives.length from hlen ▸ hi)
          exact ⟨_, _, he, hparts i m _ hm he⟩

end

/-- Every union in the schema, at any path, has no union as a member, and null at one position at
most. -/
structure Schema.FlatUnions (T : Schema) : Prop where
  plain : ∀ path space members, T.place? none path = some (space, .union members) →
    ∀ m ∈ members, m.toUnion? = none
  null_once : ∀ path space members, T.place? none path = some (space, .union members) →
    ∀ i j : Nat, members[i]? = some (Schema.primitive .null) → members[j]? = some (Schema.primitive .null) →
      i = j

/-- A rendering of a type with flat alternatives has flat unions. -/
theorem Schema.flatUnions_of_renders {answer : String → Except Error Record} (ha : Settled answer)
    {d : Descriptor} (hd : d.FlatAlternatives) {T : Schema} (h : Renders answer [] none d T) :
    T.FlatUnions := by
  have hunion : ∀ path space members, T.place? none path = some (space, .union members) →
      ∃ before e, e.FlatAlternatives ∧ Renders answer before space e (.union members) := by
    intro path space members hplace
    obtain ⟨before, e, hat, hrenders, -, -⟩ := h.at_place hplace
    exact ⟨before, e, hd.of_at? ha hat, hrenders⟩
  constructor
  · intro path space members hplace m hm
    obtain ⟨before, e, he, hrenders⟩ := hunion path space members hplace
    obtain ⟨i, hi⟩ := List.mem_iff_getElem?.mp hm
    obtain ⟨part, _, hpart, hm⟩ := hrenders.member hi
    exact hm.toUnion?_eq_none (he.plain part (List.mem_of_getElem? hpart))
  · intro path space members hplace i j hi hj
    obtain ⟨before, e, he, hrenders⟩ := hunion path space members hplace
    -- both are the alternative null, which stands once
    obtain ⟨part, _, hpart, hm⟩ := hrenders.member hi
    cases hm.eq_null
    obtain ⟨part, _, hpart', hm⟩ := hrenders.member hj
    cases hm.eq_null
    obtain ⟨hlt, -⟩ := List.getElem?_eq_some_iff.mp hpart
    exact (List.getElem?_inj hlt he.nodup).mp (hpart.trans hpart'.symm)

/-- **Settled types are in canonical form**: the type of every settled field is canonical, and in
every schema that is made of registered declarations the unions are flat. -/
theorem canonical_of_settled :
    (∀ (record : String) (order : Nat) (d : DeclaredField) (f : Field),
      Field.ofDeclaration record order d = .ok f → f.type.Canonical) ∧
    ∀ (r r' : Registry) (strict : Bool) (name : String) (T : Schema), r.Reached →
      (Schema.ofRecord strict name).run r = (.ok T, r') → T.FlatUnions := by
  refine ⟨fun _ _ _ _ h => Field.ofDeclaration_canonical h, fun r r' strict name T hr hrun => ?_⟩
  have hrecord : (Descriptor.reference name).Canonical :=
    ⟨fun e he => by cases he; trivial, Descriptor.everywhere_reference trivial⟩
  exact Schema.flatUnions_of_renders hr.settled hrecord.flatAlternatives
    (Schema.ofRecord_renders hr.settled hrun).2

/-- A field whose alternatives are spread over an optional type and a union, and that is absent by
default. -/
def tourField : DeclaredField :=
  ⟨"tour", .union [.optional (.union [.record "Bus", .record "Car"]), .list (.optional .null)],
    some .absent, ⟨none, none, none, none, none, []⟩⟩

/-- The alternatives of the field stand side by side, and null takes the place of its optional
type. -/
theorem tourField_canonical :
    (∃ f, Field.ofDeclaration "Trip" 0 tourField = .ok f ∧ f.type.Canonical ∧
      f.type = .union [.null, .reference "Bus", .reference "Car", .array .null]) ∧
    linkRegistry.Reached ∧ ∃ r', (Schema.ofRecord true "Link").run linkRegistry =
      (.ok Schema.ofLinks, r') ∧ Schema.ofLinks.FlatUnions := by
  obtain ⟨hfields, hschemas⟩ := canonical_of_settled
  have htour : Field.ofDeclaration "Trip" 0 tourField = .ok ⟨"tour",
      .union [.null, .reference "Bus", .reference "Car", .array .null], some .null, 0, none, []⟩ := by
    with_unfolding_all rfl
  have hrun : ∃ r', (Schema.ofRecord true "Link").run linkRegistry = (.ok Schema.ofLinks, r') :=
    ⟨_, by with_unfolding_all rfl⟩
  obtain ⟨r', hr'⟩ := hrun
  exact ⟨⟨_, htour, hfields _ _ _ _ htour, rfl⟩, linkRegistry_reached, r', hr',
    hschemas _ _ _ _ _ linkRegistry_reached hr'⟩

end RecordModel
