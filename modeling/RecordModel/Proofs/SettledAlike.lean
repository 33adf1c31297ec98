/-
**Declarations that settle alike.**

Different declarations may become one settled type: null can be declared as an optional type or as a
member of a union, and a union within another one or its members side by side.  The conversion goes
by the declaration, and still it makes the same of what is written for all of them, except for
objects that name their record: a union takes these up only if one of its own members is that
record, and so the same object may be taken up by one declaration and not by another one.

Main definitions:

* `SettlesPlain` — what a type that is no union and no optional type becomes;
* `Json.Untagged` — nothing in a value names a record;
* `TagsAlike` — two declarations take up the same objects that name their record;
* `Model.ReadsApart` — something that only one of two declarations takes.

Main results:

* `forall₂_alternatives` — the alternatives of a declaration become those of the settled type;
* `Conversion.outcome_convert_plain` — types without alternatives that settle alike convert alike;
* `Conversion.outcome_convert_alike` — the same for all types, where tags are taken up alike;
* `Model.convert_alike` — **declarations that settle alike are converted to the same values**;
* `Model.tags_read_apart` — not so where an object names its record.
-/

import RecordModel.Proofs.UnionChoice

set_option relaxedAutoImplicit false
set_option autoImplicit false

namespace RecordModel

/-! ### Alternatives of settled types -/

namespace Descriptor

theorem alternatives_of_plain {d : Descriptor} (h : d.hasAlternatives = false) :
    d.alternatives = [d] := by
  cases d with
  | union members => cases h
  | optional inner => cases h
  | _ => rfl

theorem spliced_of_plain {d : Descriptor} (h : d.hasAlternatives = false) : d.spliced = [d] := by
  cases d with
  | union members => cases h
  | optional inner => cases h
  | _ => rfl

/-- The alternatives of an optional type are null and those of the type that are not. -/
theorem alternatives_asOptional {d : Descriptor} (h : d.FlatAlternatives) :
    d.asOptional.alternatives = null :: d.alternatives.filter fun m => !m.isNull := by
  unfold asOptional
  split
  · rename_i inner
    rw [alternatives_optional, List.filter_cons_of_neg (by decide), List.filter_filter]
    simp
  · rfl
  · rename_i members
    have hplain : ∀ m ∈ members.filter fun m => !m.isNull,
        (!m.isNull) = true ∧ m.hasAlternatives = false := fun m hm =>
      ⟨(List.mem_filter.mp hm).2, h.plain m (List.mem_filter.mp hm).1⟩
    change _ = null :: members.filter fun m => !m.isNull
    generalize members.filter (fun m => !m.isNull) = rest at hplain
    split
    · rfl
    · rename_i m
      obtain ⟨hnull, hm⟩ := hplain m (List.mem_singleton_self m)
      rw [alternatives_optional, alternatives_of_plain hm]
      exact congrArg _ (List.filter_eq_self.mpr fun m hm => (hplain m hm).1)
    · rw [alternatives_optional]
      exact congrArg _ (List.filter_eq_self.mpr fun m hm => (hplain m hm).1)
  · rw [alternatives_optional]

/-- The type, or the inner type if it is an optional type. -/
def core : Descriptor → Descriptor
  | .optional inner => inner
  | d => d

theorem core_of_plain {d : Descriptor} (h : d.hasAlternatives = false) : d.core = d := by
  cases d with
  | optional inner => cases h
  | _ => rfl

theorem core_asOptional {d : Descriptor} (h : d.core.hasAlternatives = false) :
    d.asOptional.core = d.core := by
  cases d with
  | primitive kind => cases kind <;> rfl
  | union members => cases h
  | _ => rfl

/-- Beside null a core without alternatives is the only alternative. -/
theorem eq_core_of_mem_alternatives {d m : Descriptor} (hcore : d.core.hasAlternatives = false)
    (hm : m ∈ d.alternatives) (hnull : m ≠ null) : m = d.core := by
  cases d with
  | union members => cases hcore
  | optional inner =>
      have hinner : inner.alternatives = [inner] := alternatives_of_plain hcore
      rw [alternatives_optional, hinner] at hm
      have hm := (List.mem_cons.mp hm).resolve_left hnull
      exact List.mem_singleton.mp (List.mem_filter.mp hm).1
  | _ => exact List.mem_singleton.mp hm

end Descriptor

/-! ### Types without alternatives -/

open Descriptor

/-- A type that is no union and no optional type, and what it becomes. -/
structure SettlesPlain (ctx : FieldSite) (s : DeclaredType) (e : Descriptor) : Prop where
  plain : s.hasAlternatives = false
  settles : ofDeclared ctx s = .ok e

/-- The forms of a type without alternatives. -/
inductive PlainForm (ctx : FieldSite) : DeclaredType → Descriptor → Prop
  | scalar {s : DeclaredType} {e : Descriptor} :
      s.isScalar = true → e.isLeaf = true → ofDeclared ctx s = .ok e → PlainForm ctx s e
  | items {s items : DeclaredType} {e : Descriptor} :
      s.items? = some items → ofDeclared ctx items = .ok e → PlainForm ctx s (.array e)
  | dict {values : DeclaredType} {e : Descriptor} :
      ofDeclared ctx values = .ok e → PlainForm ctx (.dict values) (.map e)
  | record {s : DeclaredType} {name : String} :
      s.record? ctx.record = some name → PlainForm ctx s (.reference name)

variable {ctx : FieldSite}

namespace SettlesPlain

variable {s : DeclaredType} {e : Descriptor}

theorem form (h : SettlesPlain ctx s e) : PlainForm ctx s e := by
  obtain ⟨hplain, h⟩ := h
  refine ofDeclared_induction (P := fun s e => s.hasAlternatives = false → PlainForm ctx s e)
    ?scalar ?items ?dict ?union ?optional ?record h hplain
  case scalar => exact fun s e hs he _ => .scalar hs (isLeaf_of_isScalar hs he) he
  case items => exact fun s items e hi he _ _ => .items hi he
  case dict => exact fun values e he _ _ => .dict he
  case union => exact fun _ _ _ _ _ hplain => absurd hplain nofun
  case optional => exact fun _ _ _ _ hplain => absurd hplain nofun
  case record => exact fun s name hs _ => .record hs

theorem hasAlternatives (h : SettlesPlain ctx s e) : e.hasAlternatives = false := by
  cases h.form with
  | scalar hs _ he => exact DeclaredType.hasAlternatives_of_isScalar hs he
  | _ => rfl

/-- Null becomes null, and nothing else without alternatives does. -/
theorem isNull_eq (h : SettlesPlain ctx s e) : s.isNull = e.isNull := by
  have hs : s.takesNull = s.isNull := by
    cases s with
    | union ts => cases h.plain
    | optional inner => cases h.plain
    | _ => rfl
  have he : e.accepts .null = e.isNull := by
    cases e with
    | primitive kind => cases kind <;> rfl
    | logical kind => cases kind <;> rfl
    | union members => cases h.hasAlternatives
    | optional inner => cases h.hasAlternatives
    | _ => rfl
  rw [← hs, ← he, takesNull_eq_accepts h.settles]

end SettlesPlain

/-! ### Alternatives before and after settling -/

/-- Lists that correspond to one list correspond to each other. -/
theorem forall₂_of_common {α β γ : Type} {R : α → γ → Prop} {S : β → γ → Prop} {as : List α}
    {bs : List β} {cs : List γ} (hr : List.Forall₂ R as cs) (hs : List.Forall₂ S bs cs) :
    List.Forall₂ (fun a b => ∃ c, R a c ∧ S b c) as bs := by
  induction hr generalizing bs with
  | nil =>
      cases hs
      exact .nil
  | cons hac _ ih =>
      cases hs with
      | cons hbc hs => exact .cons ⟨_, hac, hbc⟩ (ih hs)

/-- A union of types that settle is what they contribute, if this is distinct. -/
theorem ofDeclared_union_of_forall₂ {ts : List DeclaredType} {ds : List Descriptor} (hne : ts ≠ [])
    (hds : List.Forall₂ (fun t d => ofDeclared ctx t = .ok d) ts ds)
    (hdistinct : ((ds.flatMap spliced).map identity).Nodup) :
    ofDeclared ctx (.union ts) = .ok (.union (ds.flatMap spliced)) := by
  have hlist : ∀ {ts : List DeclaredType} {ds : List Descriptor},
      List.Forall₂ (fun t d => ofDeclared ctx t = .ok d) ts ds → ofDeclaredList ctx ts = .ok ds := by
    intro ts ds hds
    induction hds with
    | nil => rfl
    | cons h _ ih =>
        rw [ofDeclaredList, h, ih]
        rfl
  cases hds with
  | nil => exact absurd rfl hne
  | cons ht hrest =>
      rw [ofDeclared, ht, hlist hrest]
      exact ofUnion_eq_ok_iff.mpr ⟨hdistinct, rfl⟩

/-- **The alternatives of a declared type become those of the settled type**, one by one. -/
theorem forall₂_alternatives {t : DeclaredType} {d : Descriptor} (h : ofDeclared ctx t = .ok d) :
    List.Forall₂ (SettlesPlain ctx) t.alternatives d.alternatives := by
  induction t using DeclaredType.induction_members generalizing d with
  | union ts ih =>
      obtain ⟨ds, -, hds, -, rfl⟩ := exists_of_ofDeclared_union h
      have hparts : List.Forall₂ (fun t d => List.Forall₂ (SettlesPlain ctx) t.alternatives d.spliced)
          ts ds := forall₂_imp_of_mem hds fun t ht d _ hd => by
        rw [(ofDeclared_canonical hd).spliced_eq]
        exact ih t ht hd
      rw [DeclaredType.alternatives_union]
      change List.Forall₂ _ _ (ds.flatMap spliced)
      clear ih h hds
      induction hparts with
      | nil => exact .nil
      | cons hpart _ ih => exact List.rel_append hpart ih
  | optional inner ih =>
      rw [ofDeclared] at h
      obtain ⟨d, hd, rfl⟩ := exists_of_map_eq_ok h
      rw [DeclaredType.alternatives_optional,
        alternatives_asOptional (ofDeclared_canonical hd).flatAlternatives]
      refine .cons ⟨rfl, rfl⟩ (List.rel_filter ?_ (ih hd))
      intro s e hs
      simp only [hs.isNull_eq]
  | plain t ht =>
      have hplain : SettlesPlain ctx t d := ⟨ht, h⟩
      rw [DeclaredType.alternatives_of_plain ht, alternatives_of_plain hplain.hasAlternatives]
      exact .cons hplain .nil

/-- **A union of nested types settles as the union of their alternatives side by side.** -/
theorem ofDeclared_union_alternatives {ts : List DeclaredType} {d : Descriptor}
    (h : ofDeclared ctx (.union ts) = .ok d) :
    ofDeclared ctx (.union (ts.flatMap DeclaredType.alternatives)) = .ok d := by
  have halternatives := forall₂_alternatives h
  have hflat := (ofDeclared_canonical h).flat.self
  obtain ⟨ds, -, -, -, rfl⟩ := exists_of_ofDeclared_union h
  rw [DeclaredType.alternatives_union] at halternatives
  change List.Forall₂ _ _ (ds.flatMap spliced) at halternatives
  generalize ds.flatMap spliced = members at halternatives hflat
  have hmembers : FlatMembers members := hflat
  -- the members need no splicing any more
  have hspliced : members.flatMap spliced = members := by
    have hplain := hmembers.plain
    clear halternatives hflat hmembers
    induction members with
    | nil => rfl
    | cons m rest ih =>
        obtain ⟨hm, hrest⟩ := List.forall_mem_cons.mp hplain
        rw [List.flatMap_cons, ih hrest, spliced_of_plain hm, List.singleton_append]
  have hne : ts.flatMap DeclaredType.alternatives ≠ [] := by
    intro hnil
    rw [hnil] at halternatives
    cases halternatives
    exact hmembers.ne_nil rfl
  have hunion := ofDeclared_union_of_forall₂ hne (halternatives.imp fun _ _ h => h.settles)
    (hspliced.symm ▸ hmembers.distinct)
  rwa [hspliced] at hunion

/-! ### Objects that name a record -/

theorem record?_of_isRecord {owner tag : String} {s : DeclaredType}
    (h : Conversion.isRecord owner s tag = true) : s.record? owner = some tag := by
  cases s with
  | record name | self => exact congrArg some (by simpa [Conversion.isRecord] using h)
  | _ => cases h

theorem SettlesPlain.of_record? {s : DeclaredType} {name : String} {e : Descriptor}
    (hs : s.record? ctx.record = some name) (h : ofDeclared ctx s = .ok e) :
    SettlesPlain ctx s e ∧ e = .reference name := by
  have hplain : s.hasAlternatives = false := by cases s <;> first | rfl | cases hs
  have hform : SettlesPlain ctx s e := ⟨hplain, h⟩
  refine ⟨hform, ?_⟩
  cases hform.form with
  | scalar ht _ _ => exact absurd hs (by simp [DeclaredType.record?_of_isScalar ht])
  | items hi _ => exact absurd hi (by simp [DeclaredType.items?_of_record? hs])
  | dict _ => cases hs
  | record hr =>
      cases hs.symm.trans hr
      rfl

/-- What an object that names a record is passed on to becomes that record, or the core of the
settled type. -/
theorem settlesPlain_of_mem_tagged {t : DeclaredType} {d : Descriptor} {tag : String}
    (h : ofDeclared ctx t = .ok d) {s : DeclaredType} (hs : s ∈ t.tagged ctx.record tag) :
    ∃ e, SettlesPlain ctx s e ∧ (e = .reference tag ∧ e ∈ d.alternatives ∨ e = d.core) := by
  induction t using DeclaredType.induction_members generalizing d with
  | union ts ih =>
      obtain ⟨hs, hrecord⟩ := List.mem_filter.mp hs
      obtain ⟨ds, -, hds, -, rfl⟩ := exists_of_ofDeclared_union h
      obtain ⟨e, he, hse⟩ := exists_right_of_forall₂ hds hs
      obtain ⟨hplain, rfl⟩ := SettlesPlain.of_record? (record?_of_isRecord hrecord) hse
      exact ⟨_, hplain, .inl ⟨rfl, List.mem_flatMap.mpr ⟨_, he, List.mem_singleton_self _⟩⟩⟩
  | optional inner ih =>
      rw [ofDeclared] at h
      obtain ⟨d, hd, rfl⟩ := exists_of_map_eq_ok h
      obtain ⟨e, hplain, he⟩ := ih hd hs
      refine ⟨e, hplain, ?_⟩
      rcases he with ⟨rfl, he⟩ | rfl
      · refine .inl ⟨rfl, ?_⟩
        rw [alternatives_asOptional (ofDeclared_canonical hd).flatAlternatives]
        exact List.mem_cons_of_mem _ (List.mem_filter.mpr ⟨he, rfl⟩)
      · exact .inr (core_asOptional hplain.hasAlternatives).symm
  | plain t ht =>
      rw [DeclaredType.tagged_of_plain ht] at hs
      cases List.mem_singleton.mp hs
      have hplain : SettlesPlain ctx s d := ⟨ht, h⟩
      exact ⟨d, hplain, .inr (core_of_plain hplain.hasAlternatives).symm⟩

/-- What an object that names a record is passed on to by declarations that settle alike settles
alike. -/
theorem exists_common_of_mem_tagged {t₁ t₂ : DeclaredType} {d : Descriptor} {tag : String}
    (h₁ : ofDeclared ctx t₁ = .ok d) (h₂ : ofDeclared ctx t₂ = .ok d) {s₁ s₂ : DeclaredType}
    (hs₁ : s₁ ∈ t₁.tagged ctx.record tag) (hs₂ : s₂ ∈ t₂.tagged ctx.record tag) :
    ∃ e, SettlesPlain ctx s₁ e ∧ SettlesPlain ctx s₂ e := by
  obtain ⟨e₁, hplain₁, he₁⟩ := settlesPlain_of_mem_tagged h₁ hs₁
  obtain ⟨e₂, hplain₂, he₂⟩ := settlesPlain_of_mem_tagged h₂ hs₂
  suffices he : e₁ = e₂ from ⟨e₁, hplain₁, he ▸ hplain₂⟩
  rcases he₁ with ⟨rfl, hmem⟩ | rfl <;> rcases he₂ with ⟨rfl, hmem'⟩ | rfl
  · rfl
  · exact eq_core_of_mem_alternatives hplain₂.hasAlternatives hmem nofun
  · exact (eq_core_of_mem_alternatives hplain₁.hasAlternatives hmem' nofun).symm
  · rfl

/-! ### Types without parts -/

/-- A declaration that becomes the type without parts, as far as the conversion looks at it. -/
def Descriptor.leafType : Descriptor → DeclaredType
  | .primitive .boolean => .boolean
  | .primitive .int32 => .int32
  | .primitive .int64 => .int64
  | .primitive .float32 => .float32
  | .primitive .float64 => .float64
  | .primitive .bytes => .bytes
  | .primitive .string => .string
  | .logical .date => .date
  | .logical .timeMillis => .timeMillis
  | .logical .timeMicros => .timeMicros
  | .logical .timestampMillis => .timestampMillis
  | .logical .timestampMicros => .timestampMicros
  | .logical .uuid => .uuid
  | .logical (.decimal _ _) => .decimal
  | .fixed _ => .fixed
  | .enum type => .enum type.name type.symbols type.default
  | _ => .null

namespace Conversion

/-- The conversion of a type without parts goes by what it becomes. -/
theorem scalar_eq_leafType {s : DeclaredType} {e : Descriptor} (hs : s.isScalar = true)
    (h : ofDeclared ctx s = .ok e) (raw : Json) : scalar s raw = scalar e.leafType raw := by
  cases s with
  | decimal =>
      obtain ⟨_, _, rfl, -⟩ := exists_of_ofDecimal h
      rfl
  | fixed =>
      obtain ⟨_, rfl⟩ := exists_of_ofFixed h
      rfl
  | «enum» name symbols default =>
      obtain ⟨_, rfl⟩ := exists_of_ofEnum h
      rfl
  | list | tuple | dict | union | optional | record | self => cases hs
  | _ =>
      cases h
      rfl

variable {records : List DeclaredRecord} {owner : String} {raw : Json} {place : Place}

theorem outcome_convertScalar_congr {s t : DeclaredType} (h : scalar s raw = scalar t raw) :
    outcome (convertScalar raw s place) = outcome (convertScalar raw t place) := by
  rw [convertScalar, convertScalar, h]
  split <;> rfl

/-! ### Types with parts -/

theorem outcome_convertItems_congr {i j : DeclaredType} {raws : List Json}
    (h : ∀ item ∈ raws, ∀ place, outcome (convert records owner item i place) =
      outcome (convert records owner item j place)) (index : Nat) :
    outcome (convertItems records owner raws i place index) =
      outcome (convertItems records owner raws j place index) := by
  induction raws generalizing index with
  | nil => rw [convertItems, convertItems]
  | cons item raws ih =>
      obtain ⟨hitem, hitems⟩ := List.forall_mem_cons.mp h
      rw [convertItems, convertItems]
      refine outcome_bind_congr (hitem _) fun v => ?_
      exact outcome_bind_congr (ih hitems _) fun _ => rfl

theorem outcome_convertEntries_congr {i j : DeclaredType} {members : List (String × Json)}
    (h : ∀ m ∈ members, ∀ place, outcome (convert records owner m.2 i place) =
      outcome (convert records owner m.2 j place)) :
    outcome (convertEntries records owner members i place) =
      outcome (convertEntries records owner members j place) := by
  induction members with
  | nil => rw [convertEntries, convertEntries]
  | cons m members ih =>
      obtain ⟨hm, hmembers⟩ := List.forall_mem_cons.mp h
      obtain ⟨key, item⟩ := m
      rw [convertEntries, convertEntries]
      refine outcome_bind_congr (hm _) fun v => ?_
      exact outcome_bind_congr (ih hmembers) fun _ => rfl

/-- Something else than an array is refused by a type of arrays. -/
theorem outcome_convert_not_array {s items : DeclaredType} (hs : s.items? = some items)
    (hraw : ∀ raws, raw ≠ .array raws) :
    outcome (convert records owner raw s place) = .error none := by
  cases s <;> cases hs
  all_goals
    cases raw with
    | array raws => exact absurd rfl (hraw raws)
    | _ =>
        rw [convert.eq_def]
        dsimp only [DeclaredType.takesNull]
        rw [convertArray.eq_def]
        rfl

theorem outcome_convert_not_map {values : DeclaredType} (hraw : ∀ members, raw ≠ .object members) :
    outcome (convert records owner raw (.dict values) place) = .error none := by
  cases raw with
  | object members => exact absurd rfl (hraw members)
  | _ =>
      rw [convert.eq_def]
      rfl

/-- Something else than an object is refused by a type that stands for a record. -/
theorem outcome_convert_not_record {s : DeclaredType} {name : String}
    (hs : s.record? owner = some name) (hraw : ∀ members, raw ≠ .object members) :
    outcome (convert records owner raw s place) = .error none := by
  cases s <;> cases hs
  all_goals
    cases raw with
    | object members => exact absurd rfl (hraw members)
    | _ =>
        rw [convert.eq_def]
        rfl

theorem outcome_convert_items_congr {s t i j : DeclaredType} (hi : s.items? = some i)
    (hj : t.items? = some j)
    (h : ∀ raws, raw = .array raws → ∀ item ∈ raws, ∀ place,
      outcome (convert records owner item i place) =
        outcome (convert records owner item j place)) :
    outcome (convert records owner raw s place) = outcome (convert records owner raw t place) := by
  by_cases harray : ∃ raws, raw = .array raws
  · obtain ⟨raws, rfl⟩ := harray
    rw [convert_array hi, convert_array hj]
    exact outcome_map_congr (outcome_convertItems_congr (h raws rfl) 0) _
  · rw [not_exists] at harray
    rw [outcome_convert_not_array hi harray, outcome_convert_not_array hj harray]

theorem outcome_convert_dict_congr {i j : DeclaredType}
    (h : ∀ members, raw = .object members → ∀ m ∈ members, ∀ place,
      outcome (convert records owner m.2 i place) =
        outcome (convert records owner m.2 j place)) :
    outcome (convert records owner raw (.dict i) place) =
      outcome (convert records owner raw (.dict j) place) := by
  by_cases hobject : ∃ members, raw = .object members
  · obtain ⟨members, rfl⟩ := hobject
    rw [convert, convert]
    exact outcome_map_congr (outcome_convertEntries_congr (h members rfl)) _
  · rw [not_exists] at hobject
    rw [outcome_convert_not_map hobject, outcome_convert_not_map hobject]

theorem outcome_convert_record_congr {s t : DeclaredType} {name : String}
    (hs : s.record? owner = some name) (ht : t.record? owner = some name) :
    outcome (convert records owner raw s place) = outcome (convert records owner raw t place) := by
  by_cases hobject : ∃ members, raw = .object members
  · obtain ⟨members, rfl⟩ := hobject
    rw [convert_object _ _ hs, convert_object _ _ ht]
  · rw [not_exists] at hobject
    rw [outcome_convert_not_record hs hobject, outcome_convert_not_record ht hobject]

/-- **Types without alternatives that settle alike convert alike**, if their parts do. -/
theorem outcome_convert_plain {s t : DeclaredType} {e : Descriptor} (hs : SettlesPlain ctx s e)
    (ht : SettlesPlain ctx t e) (hraw : raw ≠ .null)
    (hitems : ∀ raws i j, raw = .array raws → s.items? = some i → t.items? = some j →
      ∀ e', ofDeclared ctx i = .ok e' → ofDeclared ctx j = .ok e' →
      ∀ item ∈ raws, ∀ place, outcome (convert records ctx.record item i place) =
        outcome (convert records ctx.record item j place))
    (hentries : ∀ members i j, raw = .object members → s = .dict i → t = .dict j →
      ∀ e', ofDeclared ctx i = .ok e' → ofDeclared ctx j = .ok e' →
      ∀ m ∈ members, ∀ place, outcome (convert records ctx.record m.2 i place) =
        outcome (convert records ctx.record m.2 j place)) :
    outcome (convert records ctx.record raw s place) =
      outcome (convert records ctx.record raw t place) := by
  cases hs.form with
  | scalar hs hleaf he =>
      cases ht.form with
      | scalar ht _ he' =>
          rw [convert_scalar _ _ hs fun h => absurd h hraw,
            convert_scalar _ _ ht fun h => absurd h hraw]
          refine outcome_convertScalar_congr ?_
          rw [scalar_eq_leafType hs he, scalar_eq_leafType ht he']
      | _ => cases hleaf
  | items hi he =>
      cases ht.form with
      | scalar _ hleaf _ => cases hleaf
      | items hj he' =>
          exact outcome_convert_items_congr hi hj fun raws hraws =>
            hitems raws _ _ hraws hi hj _ he he'
  | dict he =>
      cases ht.form with
      | scalar _ hleaf _ => cases hleaf
      | dict he' =>
          exact outcome_convert_dict_congr fun members hmembers =>
            hentries members _ _ hmembers rfl rfl _ he he'
  | record hname =>
      cases ht.form with
      | scalar _ hleaf _ => cases hleaf
      | record hname' => exact outcome_convert_record_congr hname hname'

end Conversion

/-! ### Tags -/

/-- The declarations take up the same objects that name their record: where one passes such an
object on to some type, so does the other, and this holds again for the items of an array and the
entries of a map.  Inside the object for a record there is only the declaration of that record. -/
inductive TagsAlike (owner : String) : DeclaredType → DeclaredType → Json → Prop
  | intro {t₁ t₂ : DeclaredType} {raw : Json} :
      (∀ tag, Conversion.tagOfValue? raw = some tag →
        (t₁.tagged owner tag = [] ↔ t₂.tagged owner tag = [])) →
      (∀ raws, raw = .array raws →
        ∀ s₁ ∈ Conversion.candidates owner raw t₁, ∀ s₂ ∈ Conversion.candidates owner raw t₂,
        ∀ i₁ i₂, s₁.items? = some i₁ → s₂.items? = some i₂ →
        ∀ item ∈ raws, TagsAlike owner i₁ i₂ item) →
      (∀ members, raw = .object members → ∀ i₁ i₂,
        .dict i₁ ∈ Conversion.candidates owner raw t₁ →
        .dict i₂ ∈ Conversion.candidates owner raw t₂ →
        ∀ m ∈ members, TagsAlike owner i₁ i₂ m.2) →
      TagsAlike owner t₁ t₂ raw

/-- No object in the value names a record. -/
inductive Json.Untagged : Json → Prop
  | intro {raw : Json} :
      Conversion.tagOfValue? raw = none →
      (∀ raws, raw = .array raws → ∀ item ∈ raws, Untagged item) →
      (∀ members, raw = .object members → ∀ m ∈ members, Untagged m.2) → Untagged raw

/-- Without tags all declarations take up the same objects. -/
theorem Json.Untagged.tagsAlike {owner : String} {raw : Json} (h : raw.Untagged)
    (t₁ t₂ : DeclaredType) : TagsAlike owner t₁ t₂ raw := by
  induction h generalizing t₁ t₂ with
  | intro htag _ _ hitems hentries =>
      refine .intro (fun tag h => ?_) ?_ ?_
      · rw [htag] at h
        cases h
      · exact fun raws hraw _ _ _ _ i₁ i₂ _ _ item hitem => hitems raws hraw item hitem i₁ i₂
      · exact fun members hraw i₁ i₂ _ _ m hm => hentries members hraw m hm i₁ i₂

namespace Conversion

variable {records : List DeclaredRecord} {raw : Json}

/-- **Declarations that settle alike convert alike**, where they take up the same objects that name
their record. -/
theorem outcome_convert_alike {t₁ t₂ : DeclaredType} (htags : TagsAlike ctx.record t₁ t₂ raw)
    {d : Descriptor} (h₁ : ofDeclared ctx t₁ = .ok d) (h₂ : ofDeclared ctx t₂ = .ok d)
    (place : Place) :
    outcome (convert records ctx.record raw t₁ place) =
      outcome (convert records ctx.record raw t₂ place) := by
  induction htags generalizing d place with
  | @intro t₁ t₂ raw hempty hitems hentries iharray ihentries =>
      by_cases hraw : raw = .null
      · subst hraw
        rw [outcome_convert_null, outcome_convert_null, takesNull_eq_accepts h₁,
          takesNull_eq_accepts h₂]
      -- candidates that settle alike convert alike, because their parts are smaller
      have hcommon : ∀ s₁ ∈ candidates ctx.record raw t₁, ∀ s₂ ∈ candidates ctx.record raw t₂,
          (∃ e, SettlesPlain ctx s₁ e ∧ SettlesPlain ctx s₂ e) →
          outcome (convert records ctx.record raw s₁ place) =
            outcome (convert records ctx.record raw s₂ place) := by
        rintro s₁ hs₁ s₂ hs₂ ⟨e, he₁, he₂⟩
        refine outcome_convert_plain he₁ he₂ hraw ?_ ?_
        · intro raws i j hraws hi hj e' hi' hj' item hitem place
          exact iharray raws hraws s₁ hs₁ s₂ hs₂ i j hi hj item hitem hi' hj' place
        · rintro members i j hmembers rfl rfl e' hi' hj' m hm place
          exact ihentries members hmembers i j hs₁ hs₂ m hm hi' hj' place
      rw [outcome_convert hraw, outcome_convert hraw]
      cases htag : tagOfValue? raw with
      | none =>
          have hcandidates : ∀ t, candidates ctx.record raw t = t.alternatives := by
            intro t
            rw [candidates, htag]
          rw [hcandidates, hcandidates] at hcommon ⊢
          have hall := forall₂_of_common (forall₂_alternatives h₁) (forall₂_alternatives h₂)
          exact attempt_congr (forall₂_imp_of_mem hall hcommon)
      | some tag =>
          have hcandidates : ∀ t, candidates ctx.record raw t = t.tagged ctx.record tag := by
            intro t
            rw [candidates, htag]
          rw [hcandidates, hcandidates] at hcommon ⊢
          exact attempt_eq_of_forall (hempty tag htag) fun s₁ hs₁ s₂ hs₂ =>
            hcommon s₁ hs₁ s₂ hs₂ (exists_common_of_mem_tagged h₁ h₂ hs₁ hs₂)

end Conversion

/-! ### The same values -/

namespace Model

open Conversion

/-- **Declarations that settle alike are converted to the same values**, where they take up the same
objects that name their record.  Without such objects a union of nested types is converted as the
union of their alternatives side by side, which settles alike. -/
theorem convert_alike (m : Model) (ctx : FieldSite) (place : Place) :
    (∀ t₁ t₂ d raw v, ofDeclared ctx t₁ = .ok d → ofDeclared ctx t₂ = .ok d →
      TagsAlike ctx.record t₁ t₂ raw →
      (convert m.records ctx.record raw t₁ place = .ok v ↔
        convert m.records ctx.record raw t₂ place = .ok v)) ∧
    ∀ ts d, ofDeclared ctx (.union ts) = .ok d →
      ofDeclared ctx (.union (ts.flatMap DeclaredType.alternatives)) = .ok d ∧
      ∀ raw v, raw.Untagged →
        (convert m.records ctx.record raw (.union ts) place = .ok v ↔
          convert m.records ctx.record raw (.union (ts.flatMap DeclaredType.alternatives)) place =
            .ok v) := by
  have halike : ∀ t₁ t₂ d raw v, ofDeclared ctx t₁ = .ok d → ofDeclared ctx t₂ = .ok d →
      TagsAlike ctx.record t₁ t₂ raw →
      (convert m.records ctx.record raw t₁ place = .ok v ↔
        convert m.records ctx.record raw t₂ place = .ok v) := by
    intro t₁ t₂ d raw v h₁ h₂ htags
    rw [← outcome_eq_ok_iff, outcome_convert_alike htags h₁ h₂ place, outcome_eq_ok_iff]
  refine ⟨halike, fun ts d h => ?_⟩
  have hflat := ofDeclared_union_alternatives h
  exact ⟨hflat, fun raw v hraw => halike _ _ d raw v h hflat (hraw.tagsAlike _ _)⟩

/-! ### Rides -/

/-- Two records without fields, and one with a field for either of them. -/
def ofRides : Model :=
  ⟨[⟨"Bus", none, none, [], []⟩, ⟨"Car", none, none, [], []⟩,
    ⟨"Trip", none, none, [], [⟨"ride", .union [.record "Bus", .optional (.record "Car")], none,
      ⟨none, none, none, none, none, []⟩⟩]⟩]⟩

/-- The place of that field. -/
def rideSite : FieldSite := ⟨"Trip", "ride", ⟨none, none, none, none, none, []⟩⟩

/-- Its type, with a member inside an optional type. -/
def nestedRide : DeclaredType := .union [.record "Bus", .optional (.record "Car")]

/-- Its alternatives side by side. -/
def flatRide : DeclaredType := .union [.record "Bus", .null, .record "Car"]

/-- What both become. -/
def ride : Descriptor := .union [.reference "Bus", .null, .reference "Car"]

/-- An object that names its record. -/
def taggedJson (name : String) : Json := .object [(tagKey, .string name)]

theorem taggedJson_ne_null (name : String) : taggedJson name ≠ .null := Json.noConfusion

theorem ofDeclared_nestedRide : ofDeclared rideSite nestedRide = .ok ride := by
  with_unfolding_all rfl

theorem ofDeclared_flatRide : ofDeclared rideSite flatRide = .ok ride := by
  with_unfolding_all rfl

theorem reads_taggedJson {name : String} (hname : name = "Bus" ∨ name = "Car") :
    Reads ofRides.records "Trip" (.record name) (taggedJson name) (.record ⟨name, []⟩) := by
  rcases hname with rfl | rfl
  · exact .record rfl rfl rfl .nil
  · exact .record rfl rfl rfl .nil

theorem tagged_nestedRide : nestedRide.tagged "Trip" "Bus" = [.record "Bus"] := rfl

theorem tagged_flatRide : flatRide.tagged "Trip" "Bus" = [.record "Bus"] := rfl

theorem tagsAlike_bus : TagsAlike "Trip" nestedRide flatRide (taggedJson "Bus") := by
  refine .intro ?_ (fun raws hraw => Json.noConfusion hraw) ?_
  · intro tag htag
    cases htag
    rw [tagged_nestedRide, tagged_flatRide]
  · intro members _ i₁ i₂ hi₁
    exact DeclaredType.noConfusion (List.mem_singleton.mp hi₁)

/-- Nested and flat the union takes the bus that is named. -/
theorem bus_convert_alike :
    ofDeclared rideSite nestedRide = .ok ride ∧ ofDeclared rideSite flatRide = .ok ride ∧
      TagsAlike "Trip" nestedRide flatRide (taggedJson "Bus") ∧
      ∀ place, convert ofRides.records "Trip" (taggedJson "Bus") nestedRide place =
        .ok (.record ⟨"Bus", []⟩) := by
  refine ⟨ofDeclared_nestedRide, ofDeclared_flatRide, tagsAlike_bus, fun place => ?_⟩
  obtain ⟨halike, -⟩ := convert_alike ofRides rideSite place
  refine (halike _ _ _ _ _ ofDeclared_nestedRide ofDeclared_flatRide tagsAlike_bus).mpr ?_
  rw [← outcome_eq_ok_iff, outcome_convert (taggedJson_ne_null _)]
  change attempt ofRides.records "Trip" (taggedJson "Bus") place [.record "Bus"] = _
  rw [attempt_singleton, reads_taggedJson (.inl rfl), outcome_ok]

/-! ### Not the same values -/

/-- Two declarations settle alike, but one takes what is written and the other one refuses it. -/
def ReadsApart (m : Model) (ctx : FieldSite) (t₁ t₂ : DeclaredType) (raw : Json) : Prop :=
  (∃ d, ofDeclared ctx t₁ = .ok d ∧ ofDeclared ctx t₂ = .ok d) ∧
    ∃ v, (∀ place, convert m.records ctx.record raw t₁ place = .ok v) ∧
      ∀ place w, convert m.records ctx.record raw t₂ place ≠ .ok w

theorem convert_ne_ok_of_candidates {records : List DeclaredRecord} {owner : String} {raw : Json}
    {t : DeclaredType} (hraw : raw ≠ .null) (ht : candidates owner raw t = []) (place : Place)
    (w : Value) : convert records owner raw t place ≠ .ok w := by
  rw [ne_eq, ← outcome_eq_ok_iff, outcome_convert hraw, ht, attempt_nil]
  exact nofun

/-- **Declarations that settle alike may be converted to different values**, where an object names
a record: the car is no member of the nested union, but of an optional type in it; and a union of
maps takes no object that has the key, while a type of maps does. -/
theorem tags_read_apart :
    ofRides.ReadsApart rideSite flatRide nestedRide (taggedJson "Car") ∧
      ofRides.ReadsApart rideSite (.optional (.dict .string))
        (.optional (.union [.dict .string])) (taggedJson "Plane") := by
  refine ⟨⟨⟨_, ofDeclared_flatRide, ofDeclared_nestedRide⟩, .record ⟨"Car", []⟩, ?_,
      convert_ne_ok_of_candidates (taggedJson_ne_null _) rfl⟩,
    ⟨.optional (.map (.primitive .string)), by with_unfolding_all rfl,
      by with_unfolding_all rfl⟩, .mapOf [(tagKey, .string "Plane")], ?_,
      convert_ne_ok_of_candidates (taggedJson_ne_null _) rfl⟩
  · intro place
    rw [← outcome_eq_ok_iff, outcome_convert (taggedJson_ne_null _)]
    change attempt ofRides.records "Trip" (taggedJson "Car") place [.record "Car"] = _
    rw [attempt_singleton, reads_taggedJson (.inr rfl), outcome_ok]
  · intro place
    have hplane : Reads ofRides.records "Trip" .string (.string "Plane") (.string "Plane") :=
      .scalar rfl Json.noConfusion rfl
    change convert ofRides.records "Trip" (taggedJson "Plane") (.optional (.dict .string)) place = _
    rw [convert_optional _ _ _ _ _ (taggedJson_ne_null _), taggedJson, convert, convertEntries, hplane,
      convertEntries]
    rfl

end Model

end RecordModel
