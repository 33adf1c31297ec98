/-
**Strict checks of defaults.**

A strict check asks the default of a union to suit the alternative that is written first.  It looks at
nothing that decides what is written, so it can only refuse: the schema that a record has with strict
checks is the one that it has without them.  What a type renders after some definitions is determined
by them, and so is the schema of a record.

Main definitions:

* `Field.OutOfOrder` — a default that is one of the type, and not of the alternative written first.

Main results:

* `Renders.unique` — **a type has one rendering after some definitions**;
* `Buildable.lenient` — what passes strict checks passes lenient ones;
* `strict_refines_lenient` — what strict checks change.
-/

import RecordModel.Proofs.Rearranged
import RecordModel.Proofs.SchemaValues

set_option relaxedAutoImplicit false
set_option autoImplicit false

namespace RecordModel

/-! ### One rendering -/

/-- Schemas of records with the same outline and the same types are the same. -/
theorem RecordSchema.ext_outline {r r' : RecordSchema Schema} (h : r.outline = r'.outline)
    (htypes : r.fields.map (·.type) = r'.fields.map (·.type)) : r = r' := by
  obtain ⟨name, space, doc, aliases, fields⟩ := r
  obtain ⟨name', space', doc', aliases', fields'⟩ := r'
  simp only [outline, RecordSchema.mk.injEq] at h
  obtain ⟨rfl, rfl, rfl, rfl, houtlines⟩ := h
  congr 1
  induction fields generalizing fields' with
  | nil =>
      rw [List.map_nil, eq_comm, List.map_eq_nil_iff] at houtlines
      exact houtlines.symm
  | cons f rest ih =>
      cases fields' with
      | nil => cases houtlines
      | cons f' rest' =>
          simp only [List.map_cons, List.cons.injEq] at houtlines htypes
          have hfield : f = f' := by
            obtain ⟨n, type, default, doc, aliases⟩ := f
            obtain ⟨n', type', default', doc', aliases'⟩ := f'
            simp only [FieldSchema.outline, FieldSchema.mk.injEq] at houtlines htypes ⊢
            exact ⟨houtlines.1.1, htypes.1, houtlines.1.2.2⟩
          rw [hfield, ih rest' houtlines.2 htypes.2]

section

variable {answer : String → Except Error Record} {before : List (String × NamedDefinition)}
  {space : Option String} {d : Descriptor} {n n' : Schema}

/-- Schemas that state the same type in full are the same if those below them are. -/
theorem Heads.ext_children (h : Heads answer d n) (h' : Heads answer d n')
    (hchildren : n.children = n'.children) : n = n' := by
  cases h with
  | primitive kind =>
      cases h' with
      | primitive => rfl
      | union members hd => cases hd
  | logical kind =>
      cases h' with
      | logical => rfl
      | union members hd => cases hd
  | fixed type =>
      cases h' with
      | fixed => rfl
      | union members hd => cases hd
  | enum type =>
      cases h' with
      | enum => rfl
      | union members hd => cases hd
  | array items m =>
      cases h' with
      | array _ m' => exact congrArg Schema.array (List.head_eq_of_cons_eq hchildren)
      | union members hd => cases hd
  | map values m =>
      cases h' with
      | map _ m' => exact congrArg Schema.map (List.head_eq_of_cons_eq hchildren)
      | union members hd => cases hd
  | union members hd =>
      cases h' with
      | union members' _ => exact congrArg Schema.union hchildren
      | _ => cases hd
  | record hr ho =>
      cases h' with
      | record hr' ho' =>
          cases hr.symm.trans hr'
          exact congrArg Schema.record (RecordSchema.ext_outline (ho.trans ho'.symm) hchildren)
      | union members hd => cases hd

/-- Schemas that state the same type in full define the same name, and have the same name space in
force below them. -/
theorem Heads.defines_eq (space : Option String) (h : Heads answer d n) (h' : Heads answer d n') :
    n.defines space = n'.defines space ∧ n.inner space = n'.inner space := by
  cases h with
  | record hr ho =>
      cases h' with
      | record hr' ho' =>
          cases hr.symm.trans hr'
          have hname := congrArg RecordSchema.name (ho.trans ho'.symm)
          have hspace := congrArg RecordSchema.space (ho.trans ho'.symm)
          simp only [RecordSchema.outline] at hname hspace
          simp [Schema.defines, Schema.inner, hname, hspace]
      | union members hd => cases hd
  | union members hd =>
      cases h' with
      | union members' _ => exact ⟨rfl, rfl⟩
      | _ => cases hd
  | _ =>
      cases h' with
      | union members hd => cases hd
      | _ => exact ⟨rfl, rfl⟩

/-- A named type that is stated in full defines its name. -/
theorem Heads.defines_of_named? (space : Option String) (ha : Settled answer)
    (h : Heads answer d n) {b : String} {type : NamedType} (hd : d.named? = some (b, type)) :
    ∃ full, n.defines space = some (b, ⟨full, type⟩) := by
  cases h with
  | record hr ho =>
      have hname := Heads.name_eq ha (.record hr ho)
      cases hd
      exact ⟨_, by rw [Schema.defines, hname]⟩
  | fixed _ =>
      cases hd
      exact ⟨_, rfl⟩
  | enum _ =>
      cases hd
      exact ⟨_, rfl⟩
  | union _ halt =>
      cases d with
      | union _ => cases hd
      | optional _ => cases hd
      | _ => cases halt
  | _ => cases hd

theorem Heads.not_defined (ha : Settled answer) (h : Heads answer d n)
    (hfresh : ∀ e ∈ n.defines space, e.1 ∉ Keyed.keys before) {b : String} {type : NamedType}
    (hd : d.named? = some (b, type)) : Keyed.get? b before = none := by
  obtain ⟨full, hdefines⟩ := h.defines_of_named? space ha hd
  exact (Keyed.get?_eq_none_iff _ _).mpr (hfresh _ hdefines)

/-- **A type has one rendering after some definitions.** -/
theorem Renders.unique (ha : Settled answer) (h : Renders answer before space d n)
    (h' : Renders answer before space d n') : n = n' := by
  -- induction on the rendering; what is below a schema in full is compared one after the other,
  -- for what is defined before the next one is what the others define
  induction h generalizing n' with
  | @back before space d b full type hd hget =>
      cases h' with
      | back hd' hget' =>
          cases hd.symm.trans hd'
          cases hget.symm.trans hget'
          rfl
      | full hheads hfresh _ _ => cases hget.symm.trans (hheads.not_defined ha hfresh hd)
  | @full before space d n hheads hfresh hlen hparts ih =>
      cases h' with
      | back hd' hget' => cases hget'.symm.trans (hheads.not_defined ha hfresh hd')
      | full hheads' hfresh' hlen' hparts' =>
          obtain ⟨hdefines, hinner⟩ := hheads.defines_eq space hheads'
          have htake : ∀ i ≤ n.children.length, n.children.take i = n'.children.take i := by
            intro i
            induction i with
            | zero => exact fun _ => rfl
            | succ i ihi =>
                intro hi
                have hbelow := ihi (by omega)
                have hm := List.getElem?_eq_getElem (show i < n.children.length by omega)
                have hm' := List.getElem?_eq_getElem (show i < n'.children.length by omega)
                have he := List.getElem?_eq_getElem (show i < (d.children answer).length by omega)
                have hrenders := hparts' i _ _ hm' he
                have hbefore : n'.definedBefore space i = n.definedBefore space i := by
                  rw [Schema.definedBefore, Schema.definedBefore, hdefines, hinner, hbelow]
                rw [hbefore, ← hinner] at hrenders
                rw [List.take_add_one, List.take_add_one, hbelow, hm, hm',
                  ih i _ _ hm he hrenders]
          have hchildren := htake _ (Nat.le_refl _)
          rw [List.take_length, hlen, ← hlen', List.take_length] at hchildren
          exact hheads.ext_children hheads' hchildren

end

/-! ### Strict and lenient checks -/

/-- A default that suits the alternative that is written first is one of the type. -/
theorem Descriptor.Suits.accepts {type : Descriptor} {v : Value} {strict : Bool}
    (h : type.Suits v strict) : type.accepts v = true := by
  unfold Suits at h
  split at h
  · obtain ⟨m, hm, hv⟩ := h
    rw [accepts_iff_alternatives]
    exact ⟨m, mem_writtenAlternatives.mp (List.mem_of_mem_head? hm), hv⟩
  · exact h

theorem checkDefault_lenient_iff (record : String) (f : Field) :
    checkDefault record f false = .ok () ↔ ∀ v, f.default = some v → f.type.accepts v = true := by
  rw [checkDefault_eq_ok_iff]
  simp [Descriptor.Suits]

theorem checkDefault_lenient {record : String} {f : Field} {strict : Bool}
    (h : checkDefault record f strict = .ok ()) : checkDefault record f false = .ok () := by
  rw [checkDefault_eq_ok_iff] at h
  exact (checkDefault_lenient_iff record f).mpr fun v hv => (h v hv).accepts

/-- The default of the field is one of its type, which has alternatives, and not one of the
alternative that is written first. -/
structure Field.OutOfOrder (f : Field) (v : Value) (first : Descriptor) : Prop where
  alternatives : f.type.hasAlternatives = true
  default : f.default = some v
  accepts : f.type.accepts v = true
  writtenFirst : (writtenAlternatives f.type f.default).head? = some first
  refused : first.accepts v = false

/-- What a strict check refuses and the lenient one does not is a default out of order. -/
theorem outOfOrder_of_checkDefault {record : String} {f : Field} {e : Error}
    (hlenient : checkDefault record f false = .ok ())
    (hstrict : checkDefault record f true = .error e) :
    ∃ v first, f.OutOfOrder v first ∧
      e = .schema record (some f.name) (.notFirstAlternative v (some first)) := by
  rw [checkDefault_lenient_iff] at hlenient
  unfold checkDefault at hstrict
  cases hdefault : f.default with
  | none =>
      rw [hdefault] at hstrict
      cases hstrict
  | some v =>
      have hv := hlenient v hdefault
      rw [hdefault, Option.bind_some, defaultFault?] at hstrict
      cases halt : f.type.hasAlternatives with
      | false => simp [halt, hv] at hstrict
      | true =>
          -- there is an alternative that takes the default, hence a first one
          obtain ⟨m, hm, -⟩ := (Descriptor.accepts_iff_alternatives f.type v).mp hv
          have hmem : m ∈ writtenAlternatives f.type (some v) := mem_writtenAlternatives.mpr hm
          cases hfirst : (writtenAlternatives f.type (some v)).head? with
          | none =>
              rw [List.head?_eq_none_iff.mp hfirst] at hmem
              cases hmem
          | some first =>
              cases hrefused : first.accepts v with
              | true => simp [halt, hfirst, hrefused] at hstrict
              | false =>
                  have he : e = .schema record (some f.name)
                      (.notFirstAlternative v (some first)) := by
                    simpa [halt, hfirst, hrefused, eq_comm] using hstrict
                  exact ⟨v, first, ⟨halt, hdefault, hv, hdefault ▸ hfirst, hrefused⟩, he⟩

/-! ### Strict and lenient schemas -/

/-- What is buildable with strict checks is buildable with lenient ones. -/
theorem Buildable.lenient {answer : String → Except Error Record} {strict : Bool} {name : String}
    (h : Buildable answer strict name) : Buildable answer false name :=
  ⟨h.resolves, fun other record hreach hr f hf =>
    checkDefault_lenient (h.defaults other record hreach hr f hf), h.consistent⟩

namespace Schema

variable {r q r' q' : Registry} {strict : Bool} {name : String} {T T' : Schema} {e : Error}

/-- Registries with the same answers give a record one schema, whatever the checks. -/
theorem ofRecord_unique {strict' : Bool} (ha : Settled r.answer) (hq : q.answer = r.answer)
    (h : (ofRecord strict name).run r = (.ok T, r'))
    (h' : (ofRecord strict' name).run q = (.ok T', q')) : T = T' := by
  obtain ⟨-, hrenders⟩ := ofRecord_renders ha h
  obtain ⟨-, hrenders'⟩ := ofRecord_renders (hq ▸ ha) h'
  rw [hq] at hrenders'
  exact hrenders.unique ha hrenders'

/-- **A schema with strict checks is one with lenient checks.** -/
theorem run_lenient (ha : Settled r.answer) (hq : q.answer = r.answer)
    (h : (ofRecord strict name).run r = (.ok T, r')) :
    ∃ q', (ofRecord false name).run q = (.ok T, q') := by
  have hbuildable := (buildable_of_run ha h).lenient
  rw [← hq] at hbuildable
  obtain ⟨T', q', hrun⟩ := run_of_buildable (hq ▸ ha) hbuildable
  cases ofRecord_unique ha hq h hrun
  exact ⟨q', hrun⟩

/-- **What strict checks refuse and lenient ones do not is a default out of order**, of a record that
can be reached. -/
theorem outOfOrder_of_run (ha : Settled r.answer) (hq : q.answer = r.answer)
    (hlenient : (ofRecord false name).run q = (.ok T, q'))
    (hstrict : (ofRecord true name).run r = (.error e, r')) :
    ∃ owner record f v first, Reachable r.answer name owner ∧ r.answer owner = .ok record ∧
      f ∈ record.fields ∧ f.OutOfOrder v first ∧
      e = .schema owner (some f.name) (.notFirstAlternative v (some first)) := by
  have hbuildable := buildable_of_run (hq ▸ ha) hlenient
  rw [hq] at hbuildable
  cases problem_of_run ha hstrict with
  | unresolved hreach he => exact absurd (.unresolved hreach he) hbuildable.not_problem
  | nameTaken hreach hr hf hw hd hmeets hne =>
      exact absurd (.nameTaken hreach hr hf hw hd hmeets hne) hbuildable.not_problem
  | @default owner record f _ hreach hr hf he =>
      obtain ⟨v, first, hout, rfl⟩ :=
        outOfOrder_of_checkDefault (hbuildable.defaults owner record hreach hr f hf) he
      exact ⟨owner, record, f, v, first, hreach, hr, hf, hout, rfl⟩

end Schema

/-- **Strict checks refuse, and change nothing else.**  A record that has a schema with strict checks
has the same one with lenient checks, in the same registry or in one with the same answers.  If it
has one with lenient checks alone, then a record that can be reached has a field with a default out
of order, and the failure names both.  A lenient check asks for a default of the type and for nothing
else. -/
theorem strict_refines_lenient {r q : Registry} (hr : r.Reached) (hq : q.answer = r.answer)
    (name : String) :
    (∀ T r', (Schema.ofRecord true name).run r = (.ok T, r') →
      ∃ q', (Schema.ofRecord false name).run q = (.ok T, q')) ∧
    (∀ T q' e r', (Schema.ofRecord false name).run q = (.ok T, q') →
      (Schema.ofRecord true name).run r = (.error e, r') →
      ∃ owner record f v first, Reachable r.answer name owner ∧ r.answer owner = .ok record ∧
        f ∈ record.fields ∧ f.OutOfOrder v first ∧
        e = .schema owner (some f.name) (.notFirstAlternative v (some first))) ∧
    ∀ (owner : String) (f : Field) (v : Value), f.default = some v →
      (checkDefault owner f false = .ok () ↔ f.type.accepts v = true) := by
  refine ⟨fun T r' h => Schema.run_lenient hr.settled hq h,
    fun T q' e r' h h' => Schema.outOfOrder_of_run hr.settled hq h h', fun owner f v hv => ?_⟩
  rw [checkDefault_lenient_iff, hv]
  simp

/-- A record with a width that is a number or a text, and a text by default. -/
def brushDeclaration : DeclaredRecord :=
  ⟨"Brush", none, none, [], [
    ⟨"width", .optional (.union [.int32, .string]), some (.value (.string "wide")),
      ⟨none, none, none, none, none, []⟩⟩]⟩

/-- The registry with that record. -/
def brushRegistry : Registry := ((Registry.declare brushDeclaration).run Registry.empty).2

/-- Brushes have a schema with lenient checks alone, and the failure names the width.  Links have the
same one with either. -/
theorem brush_width_refused :
    brushRegistry.Reached ∧
      (∃ T q' r' record f,
        (Schema.ofRecord false "Brush").run brushRegistry = (.ok T, q') ∧
        (Schema.ofRecord true "Brush").run brushRegistry = (.error (.schema "Brush" (some "width")
          (.notFirstAlternative (.string "wide") (some (.primitive .int32)))), r') ∧
        brushRegistry.answer "Brush" = .ok record ∧ f ∈ record.fields ∧ f.name = "width" ∧
        f.OutOfOrder (.string "wide") (.primitive .int32) ∧
        checkDefault "Brush" f false = .ok ()) ∧
      linkRegistry.Reached ∧ ∃ T r' q',
        (Schema.ofRecord true "Link").run linkRegistry = (.ok T, r') ∧
        (Schema.ofRecord false "Link").run linkRegistry = (.ok T, q') := by
  have hreached : brushRegistry.Reached := .declare _ (.new none)
  have hlenient : ∃ T q', (Schema.ofRecord false "Brush").run brushRegistry = (.ok T, q') :=
    ⟨_, _, by with_unfolding_all rfl⟩
  have hstrict : ∃ r', (Schema.ofRecord true "Brush").run brushRegistry =
      (.error (.schema "Brush" (some "width")
        (.notFirstAlternative (.string "wide") (some (.primitive .int32)))), r') :=
    ⟨_, by with_unfolding_all rfl⟩
  have hlink : ∃ T r', (Schema.ofRecord true "Link").run linkRegistry = (.ok T, r') :=
    ⟨_, _, by with_unfolding_all rfl⟩
  obtain ⟨T, q', hq⟩ := hlenient
  obtain ⟨r', hr⟩ := hstrict
  obtain ⟨U, t, ht⟩ := hlink
  obtain ⟨-, hrefused, hcheck⟩ := strict_refines_lenient hreached rfl "Brush"
  obtain ⟨owner, record, f, v, first, -, hrecord, hf, hout, he⟩ := hrefused T q' _ r' hq hr
  obtain ⟨rfl, hname, hfault⟩ := Error.schema.inj he
  obtain ⟨rfl, hfirst⟩ := SchemaFault.notFirstAlternative.inj hfault
  cases hfirst
  obtain ⟨u, hu⟩ := (strict_refines_lenient linkRegistry_reached rfl "Link").1 U t ht
  exact ⟨hreached,
    ⟨T, q', r', record, f, hq, hr, hrecord, hf, (Option.some.inj hname).symm, hout,
      (hcheck "Brush" f _ hout.default).mpr hout.accepts⟩,
    linkRegistry_reached, U, t, u, ht, hu⟩

end RecordModel
