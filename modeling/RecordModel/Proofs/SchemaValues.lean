/-
**Generated values are instances of the schema.**

A value is an instance of a schema when it has the shape of the schema at every depth; a reference
stands for what is defined in the tree under the full name.  This is a matter of the tree alone.
The schema of a record and the values that are drawn for it come from two walks through the same
types: the schema stops at a named type that it has met, where the value goes on, and it has the
alternatives of a field in the order that the default asks for.

Main definitions:

* `Schema.Fits` — instances of a schema;
* `Descriptor.Rewrites` — a type with its alternatives in another order.

Main results:

* `Renders.resolve`, `Renders.of_heads` — a reference leads to a schema that renders the same type
  in full;
* `Drawn.fits` — what is drawn for a type is an instance of a schema that renders it;
* `Schema.ofRecord_fits` — **the instances of a record that are generated are instances of its
  schema**.
-/

import RecordModel.Proofs.DeepValues
import RecordModel.Proofs.NamedOnce

set_option relaxedAutoImplicit false
set_option autoImplicit false

namespace RecordModel

open Stateful

/-! ### Instances of a schema -/

/-- The value is an instance of the schema, which stands in the tree `T`. -/
inductive Schema.Fits (T : Schema) : Schema → Value → Prop
  | primitive {kind : Primitive} {v : Value} :
      kind.carries v = true → Fits T (.primitive kind) v
  | logical {kind : Logical} {v : Value} : kind.accepts v = true → Fits T (.logical kind) v
  | fixed {type : FixedBytes} {bs : List UInt8} :
      bs.length = type.size → Fits T (.fixed type) (.fixed bs)
  | enum {type : Enumeration} {symbol : String} :
      symbol ∈ type.symbols → Fits T (.enum type) (.enum symbol)
  | array {items : Schema} {vs : List Value} :
      (∀ v ∈ vs, Fits T items v) → Fits T (.array items) (.array vs)
  | map {values : Schema} {entries : List (String × Value)} :
      (∀ e ∈ entries, Fits T values e.2) → Fits T (.map values) (.map entries)
  | union {members : List Schema} {m : Schema} {v : Value} :
      m ∈ members → Fits T m v → Fits T (.union members) v
  | record {r : RecordSchema Schema} {i : Instance Value} :
      i.record = r.name → Keyed.keys i.fields = r.fields.map (·.name) →
      (∀ p ∈ r.fields.zip i.fields, Fits T p.1.type p.2.2) → Fits T (.record r) (.record i)
  /-- A reference takes what a schema takes that is defined in the tree under the full name. -/
  | reference {full b : String} {type : NamedType} {path : List Nat} {space : Option String}
      {n : Schema} {v : Value} :
      T.place? none path = some (space, n) → n.defines space = some (b, ⟨full, type⟩) →
      Fits T n v → Fits T (.reference full) v

/-! ### Types with reordered alternatives -/

/-- The second type is the first one, or has the alternatives of the first one in another order. -/
def Descriptor.Rewrites (d e : Descriptor) : Prop :=
  e = d ∨ d.hasAlternatives = true ∧ e.hasAlternatives = true ∧
    ∀ m ∈ d.alternatives, m ∈ e.alternatives

namespace Descriptor.Rewrites

theorem refl (d : Descriptor) : d.Rewrites d := Or.inl rfl

theorem writtenType (f : Field) : f.type.Rewrites f.writtenType := by
  unfold Field.writtenType
  split
  · rename_i h
    exact Or.inr ⟨h, rfl, fun m hm => mem_writtenAlternatives.mpr hm⟩
  · exact .refl _

theorem eq {d e : Descriptor} (h : d.Rewrites e) (hd : d.hasAlternatives = false) : e = d := by
  rcases h with rfl | ⟨ha, -⟩
  · rfl
  · rw [hd] at ha
    cases ha

theorem mem {d e m : Descriptor} (h : d.Rewrites e) (hd : d.hasAlternatives = true)
    (hm : m ∈ d.alternatives) : e.hasAlternatives = true ∧ m ∈ e.alternatives := by
  rcases h with rfl | ⟨-, he, hmem⟩
  · exact ⟨hd, hm⟩
  · exact ⟨he, hmem m hm⟩

end Descriptor.Rewrites

/-! ### References -/

theorem Descriptor.named?_inj {d e : Descriptor} {x : String × NamedType}
    (hd : d.named? = some x) (he : e.named? = some x) : d = e := by
  cases d <;> cases e <;> grind [named?]

section

variable {answer : String → Except Error Record} {before : List (String × NamedDefinition)}
  {space : Option String} {d e : Descriptor} {n : Schema}

theorem Heads.named?_eq (ha : Settled answer) (h : Heads answer d n) {b full : String}
    {type : NamedType} (hn : n.defines space = some (b, ⟨full, type⟩)) :
    d.named? = some (b, type) := by
  cases h with
  | record hr ho =>
      have hname := Heads.name_eq ha (.record hr ho)
      cases hn
      rw [Descriptor.named?, hname]
  | _ => cases hn <;> rfl

variable {T : Schema} {name : String}

/-- **A reference leads to a schema that renders the same type in full.** -/
theorem Renders.resolve (ha : Settled answer) (hT : Renders answer [] none (.reference name) T)
    {b full : String} {type : NamedType} (hd : d.named? = some (b, type))
    (hmem : (b, ⟨full, type⟩) ∈ T.definitions none) :
    ∃ path space' n' before', T.place? none path = some (space', n') ∧
      n'.defines space' = some (b, ⟨full, type⟩) ∧ Heads answer d n' ∧
      Renders answer before' space' d n' ∧
      before' ++ n'.definitions space' ⊆ T.definitions none := by
  obtain ⟨path, hpath⟩ := (Schema.mem_definitions_iff _ _ _).mp hmem
  obtain ⟨⟨space', n'⟩, hplace, hn'⟩ := Option.bind_eq_some_iff.mp hpath
  obtain ⟨before', d', -, hrenders, hsub, -⟩ := hT.at_place hplace
  have hheads : Heads answer d' n' := by
    cases hrenders with
    | back _ _ => cases hn'
    | full hheads _ _ _ => exact hheads
  cases Descriptor.named?_inj (hheads.named?_eq ha hn') hd
  exact ⟨path, space', n', before', hplace, hn', hheads, hrenders, hsub⟩

/-- What holds of every schema that renders a type in full holds of a schema that renders it, if it
passes from what is defined in the tree to the references. -/
theorem Renders.of_heads (ha : Settled answer) (hT : Renders answer [] none (.reference name) T)
    {P : Schema → Prop}
    (hback : ∀ path space n b full type, T.place? none path = some (space, n) →
      n.defines space = some (b, ⟨full, type⟩) → P n → P (.reference full))
    (h : ∀ before space n, Heads answer e n → Renders answer before space e n →
      before ++ n.definitions space ⊆ T.definitions none → P n)
    (hn : Renders answer before space e n)
    (hsub : before ++ n.definitions space ⊆ T.definitions none) : P n := by
  cases hn with
  | @back _ _ _ b full type he hget =>
      have hmem := hsub (List.mem_append_left _ (Keyed.mem_of_get? hget))
      obtain ⟨path, space', n', before', hplace, hdefines, hheads, hrenders, hsub'⟩ :=
        Renders.resolve ha hT he hmem
      exact hback _ _ _ _ _ _ hplace hdefines (h before' space' n' hheads hrenders hsub')
  | full hheads hfresh hlen hparts =>
      exact h _ _ _ hheads (.full hheads hfresh hlen hparts) hsub

/-- A value is an instance of what renders a type, if it is one of what renders it in full. -/
theorem fits_of_heads (ha : Settled answer) (hT : Renders answer [] none (.reference name) T)
    {v : Value}
    (h : ∀ before space n, Heads answer e n → Renders answer before space e n →
      before ++ n.definitions space ⊆ T.definitions none → T.Fits n v)
    (hn : Renders answer before space e n)
    (hsub : before ++ n.definitions space ⊆ T.definitions none) : T.Fits n v :=
  Renders.of_heads ha hT (P := fun n => T.Fits n v)
    (fun _ _ _ _ _ _ hplace hdefines hv => .reference hplace hdefines hv) h hn hsub

/-- A type without alternatives is written as it is: a value is an instance of what renders it, if
it has the shape of the type. -/
theorem fits_of_shape (ha : Settled answer) (hT : Renders answer [] none (.reference name) T)
    {v : Value} (hd : d.hasAlternatives = false) (h : ∀ n, Heads answer d n → T.Fits n v)
    (hde : d.Rewrites e) (hn : Renders answer before space e n)
    (hsub : before ++ n.definitions space ⊆ T.definitions none) : T.Fits n v := by
  cases hde.eq hd
  exact fits_of_heads ha hT (fun _ _ n hheads _ _ => h n hheads) hn hsub

/-- A union takes what the schema of an alternative takes. -/
theorem fits_of_alternative {v : Value} (hheads : Heads answer e n)
    (hn : Renders answer before space e n)
    (hsub : before ++ n.definitions space ⊆ T.definitions none) (he : e.hasAlternatives = true)
    {m : Descriptor} (hm : m ∈ e.alternatives)
    (h : ∀ before' n', Renders answer before' space m n' →
      before' ++ n'.definitions space ⊆ T.definitions none → T.Fits n' v) : T.Fits n v := by
  rw [← Descriptor.children_of_hasAlternatives answer he] at hm
  obtain ⟨i, hi⟩ := List.mem_iff_getElem?.mp hm
  obtain ⟨n', before', hn', hrenders, hsub'⟩ := hn.part hheads hi
  cases hheads with
  | union members _ =>
      exact .union (List.mem_of_getElem? hn') (h before' n' hrenders fun x hx => hsub (hsub' hx))
  | _ => cases he

/-- The schema of a field renders the type of the field, at the same place of an instance. -/
theorem Renders.part_of_field {owner : String} {r : RecordSchema Schema}
    (hn : Renders answer before space (.reference owner) (.record r)) {record : Record}
    (hr : answer owner = .ok record) {entries : List (String × Value)}
    (hkeys : Keyed.keys entries = record.fields.map (·.name))
    {p : FieldSchema Schema × String × Value} (hp : p ∈ r.fields.zip entries) :
    ∃ f, (f, p.2) ∈ record.fields.zip entries ∧
      ∃ before', Renders answer before' ((Schema.record r).inner space) f.writtenType p.1.type ∧
        before' ++ p.1.type.definitions ((Schema.record r).inner space) ⊆
          before ++ (Schema.record r).definitions space := by
  obtain ⟨i, hi⟩ := List.mem_iff_getElem?.mp hp
  obtain ⟨hfield, hentry⟩ := List.getElem?_zip_eq_some.mp hi
  obtain ⟨hlt, -⟩ := List.getElem?_eq_some_iff.mp hentry
  rw [length_eq_of_names hkeys] at hlt
  have hf := List.getElem?_eq_getElem hlt
  have hpart : ((Descriptor.reference owner).children answer)[i]? =
      some record.fields[i].writtenType := by
    rw [Descriptor.children_reference hr, List.getElem?_map, hf, Option.map_some]
  obtain ⟨m, before', hm, hrenders, hsub⟩ := hn.part hn.heads_record hpart
  rw [Schema.children, List.getElem?_map, hfield] at hm
  cases hm
  exact ⟨_, List.mem_of_getElem? (List.getElem?_zip_eq_some.mpr ⟨hf, hentry⟩), before', hrenders,
    hsub⟩

/-- An instance fits the schema of its record when the values fit the schemas of the fields. -/
theorem fits_record (ha : Settled answer) {owner : String} {r : RecordSchema Schema}
    (hn : Renders answer before space (.reference owner) (.record r)) {record : Record}
    (hr : answer owner = .ok record) {entries : List (String × Value)}
    (hkeys : Keyed.keys entries = record.fields.map (·.name))
    (h : ∀ f e, (f, e) ∈ record.fields.zip entries → ∀ before' n',
      Renders answer before' ((Schema.record r).inner space) f.writtenType n' →
      before' ++ n'.definitions ((Schema.record r).inner space) ⊆
        before ++ (Schema.record r).definitions space → T.Fits n' e.2) :
    T.Fits (.record r) (.record ⟨owner, entries⟩) := by
  cases hn.heads_record with
  | record hr' ho =>
      cases hr.symm.trans hr'
      refine .record (Heads.name_eq ha (.record hr ho)).symm ?_ fun p hp => ?_
      · exact hkeys.trans (names_of_outline ho).symm
      · obtain ⟨f, hf, before', hrenders, hsub⟩ := hn.part_of_field hr hkeys hp
        exact h f p.2 hf before' p.1.type hrenders hsub

/-! ### Drawn values -/

/-- **What is drawn for a type is an instance of a schema that renders it**, in the schema of a
record. -/
theorem Drawn.fits (ha : Settled answer) (hT : Renders answer [] none (.reference name) T)
    {s : Settings} {levels : Nat} {chain : List String} {v : Value}
    (h : Drawn answer s levels chain d v) (hd : d.Checked) (hde : d.Rewrites e)
    (hn : Renders answer before space e n)
    (hsub : before ++ n.definitions space ⊆ T.definitions none) : T.Fits n v := by
  -- induction on the draw and not on the schema, which may stop at a reference where the value
  -- goes on; all that a case keeps of the place is that its definitions are in the tree
  induction h generalizing before space e n with
  | primitive hv =>
      refine fits_of_shape ha hT rfl (fun n hheads => ?_) hde hn hsub
      cases hheads with
      | primitive => exact .primitive hv
      | union _ hu => cases hu
  | @logical _ _ kind v hv =>
      refine fits_of_shape ha hT rfl (fun n hheads => ?_) hde hn hsub
      cases hheads with
      | logical =>
          have haccepts := Descriptor.accepts_of_carries hv hd
          rw [Descriptor.accepts] at haccepts
          exact .logical haccepts
      | union _ hu => cases hu
  | fixed hlen =>
      refine fits_of_shape ha hT rfl (fun n hheads => ?_) hde hn hsub
      cases hheads with
      | fixed => exact .fixed hlen
      | union _ hu => cases hu
  | enum hs =>
      refine fits_of_shape ha hT rfl (fun n hheads => ?_) hde hn hsub
      cases hheads with
      | enum => exact .enum hs
      | union _ hu => cases hu
  | @items _ _ items vs _ _ _ _ ih =>
      cases hde.eq rfl
      refine fits_of_heads ha hT (fun before space n hheads hn hsub => ?_) hn hsub
      obtain ⟨m, before', hm, hrenders, hsub'⟩ := hn.part hheads (i := 0) rfl
      cases hheads with
      | array _ n' =>
          cases hm
          refine .array fun v hv => ih v hv (hd.within (.items .refl)) (.refl _) hrenders ?_
          exact fun x hx => hsub (hsub' hx)
      | union _ hu => cases hu
  | noItems _ =>
      refine fits_of_shape ha hT rfl (fun n hheads => ?_) hde hn hsub
      cases hheads with
      | array => exact .array (by simp)
      | union _ hu => cases hu
  | @values _ _ values entries _ _ _ _ _ ih =>
      cases hde.eq rfl
      refine fits_of_heads ha hT (fun before space n hheads hn hsub => ?_) hn hsub
      obtain ⟨m, before', hm, hrenders, hsub'⟩ := hn.part hheads (i := 0) rfl
      cases hheads with
      | map _ n' =>
          cases hm
          refine .map fun e he => ih e he (hd.within (.values .refl)) (.refl _) hrenders ?_
          exact fun x hx => hsub (hsub' hx)
      | union _ hu => cases hu
  | noValues _ =>
      refine fits_of_shape ha hT rfl (fun n hheads => ?_) hde hn hsub
      cases hheads with
      | map => exact .map (by simp)
      | union _ hu => cases hu
  | absent hda hnull _ =>
      obtain ⟨hea, hmem⟩ := hde.mem hda hnull
      refine fits_of_heads ha hT (fun before space n hheads hn hsub => ?_) hn hsub
      refine fits_of_alternative hheads hn hsub hea hmem fun before' n' hn' hsub' => ?_
      refine fits_of_shape ha hT rfl (fun n hheads => ?_) (.refl _) hn' hsub'
      cases hheads with
      | primitive => exact .primitive rfl
      | union _ hu => cases hu
  | member hda hm _ _ _ _ ih =>
      obtain ⟨hea, hmem⟩ := hde.mem hda hm
      refine fits_of_heads ha hT (fun before space n hheads hn hsub => ?_) hn hsub
      refine fits_of_alternative hheads hn hsub hea hmem fun before' n' hn' hsub' => ?_
      exact ih (hd.of_mem_alternatives _ hm) (.refl _) hn' hsub'
  | @record _ _ owner record fields _ hrecord hkeys _ ih =>
      cases hde.eq rfl
      refine fits_of_heads ha hT (fun before space n hheads hn hsub => ?_) hn hsub
      cases hheads with
      | @record _ record' r hrecord' ho =>
          refine fits_record ha hn hrecord hkeys fun f e hf before' n' hn' hsub' => ?_
          refine ih _ hf (ha.checked hrecord f (List.of_mem_zip hf).1) (.writtenType f) hn' ?_
          exact fun x hx => hsub (hsub' hx)
      | union _ hu => cases hu

end

/-! ### Generated instances -/

/-- **The instances of a record that are generated are instances of its schema**, whether or not
the schema asks a default to suit the alternative that is written first.  The schema and the
instance may be made one after the other: neither changes what the registry answers. -/
theorem Schema.ofRecord_fits {σ : Type} [RandomSource σ] {r r' q : Registry} (hr : r.Reached)
    {strict : Bool} {name : String} {T : Schema}
    (hschema : (ofRecord strict name).run r = (.ok T, r')) (hq : q.answer = r.answer)
    {s : Settings} {source : σ} {i : Instance Value} {t : GeneratorState σ}
    (hinstance : (drawInstance s name []).run ⟨q, source⟩ = (.ok i, t)) :
    T.Fits T (.record i) := by
  have ha := hr.settled
  obtain ⟨-, hT⟩ := ofRecord_renders ha hschema
  have hknows : Generator.Knows r.answer (⟨q, source⟩ : GeneratorState σ) := hq
  obtain ⟨-, -, record, hrecord, rfl, hfills⟩ :=
    (drawInstance_gives ha s name []).of_run_ok hknows hinstance
  refine fits_of_heads ha hT (fun before space n hheads hn hsub => ?_) hT (List.Subset.refl _)
  cases hheads with
  | record hrecord' ho =>
      refine fits_record ha hn hrecord hfills.names fun f e hf before' n' hn' hsub' => ?_
      refine (hfills.drawn _ hf rfl).fits ha hT (ha.checked hrecord f (List.of_mem_zip hf).1)
        (.writtenType f) hn' ?_
      exact fun x hx => hsub (hsub' hx)
  | union _ hu => cases hu

/-- A generated link is an instance of the schema of the links. -/
theorem link_fits :
    linkRegistry.Reached ∧
      (∃ r', (Schema.ofRecord true "Link").run linkRegistry = (.ok Schema.ofLinks, r')) ∧
      ∃ (i : Instance Value) (t : GeneratorState SplitMix),
        (drawInstance {} "Link" []).run ⟨linkRegistry, ⟨[], 0⟩⟩ = (.ok i, t) ∧
        Schema.ofLinks.Fits Schema.ofLinks (.record i) := by
  have hschema : ∃ r', (Schema.ofRecord true "Link").run linkRegistry = (.ok Schema.ofLinks, r') :=
    ⟨_, by with_unfolding_all rfl⟩
  obtain ⟨r', hr'⟩ := hschema
  have hok : ((drawInstance {} "Link" []).run
      ⟨linkRegistry, (⟨[], 0⟩ : SplitMix)⟩).1.isOk = true := by decide +kernel
  rcases hrun : (drawInstance {} "Link" []).run ⟨linkRegistry, (⟨[], 0⟩ : SplitMix)⟩ with
    ⟨_ | i, t⟩
  · rw [hrun] at hok
    cases hok
  · exact ⟨linkRegistry_reached, ⟨r', hr'⟩, i, t, rfl,
      Schema.ofRecord_fits linkRegistry_reached hr' rfl hrun⟩

end RecordModel
