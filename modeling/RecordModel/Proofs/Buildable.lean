/-
**Records that have a schema.**

The walk stops at the first problem that it meets, and looks into no record twice.  So it gives a
schema exactly if nothing that can be met is a problem: every record that can be reached is there,
the defaults of its fields pass their checks, and no bare name stands for two different types.

One direction follows the walk with the statement that all its definitions can be met: if the walk
ends with an error, that is a problem.  The other one reads off the schema what is defined in it, and
follows the walk once more for the defaults.

Main definitions:

* `Meets` — the named types that can be met from a record;
* `Buildable` — nothing that can be met is a problem;
* `Problem` — what is wrong with something that can be met;
* `Schema.Lasting` — what lasts through the walk.

Main results:

* `Schema.expandF_proceeds` — **the walk gives a schema, or something is a problem**;
* `Schema.expandF_passes` — where the walk gives a schema, the defaults passed their checks;
* `Schema.buildable_of_run` — **what has a schema is buildable**.
-/

import RecordModel.Proofs.Expansions
import RecordModel.Proofs.NamedOnce

set_option relaxedAutoImplicit false
set_option autoImplicit false

namespace RecordModel

open Stateful

/-! ### What can be met -/

/-- A named type that can be met from a record: a record that can be reached, or a type within the
type of a field of such a record. -/
inductive Meets (answer : String → Except Error Record) (name : String) :
    String → NamedType → Prop
  | record {other : String} (h : Reachable answer name other) : Meets answer name other .record
  | field {other : String} {record : Record} {f : Field} {e : Descriptor} {b : String}
      {type : NamedType} (h : Reachable answer name other) (hr : answer other = .ok record)
      (hf : f ∈ record.fields) (hw : Descriptor.Within e f.type) (he : e.named? = some (b, type)) :
      Meets answer name b type

/-- Nothing that can be met from the record is a problem. -/
structure Buildable (answer : String → Except Error Record) (strict : Bool) (name : String) :
    Prop where
  /-- Every record that can be reached is there. -/
  resolves : ∀ other, Reachable answer name other → ∃ record, answer other = .ok record
  /-- The default of every field of such a record passes its check. -/
  defaults : ∀ other record, Reachable answer name other → answer other = .ok record →
    ∀ f ∈ record.fields, checkDefault other f strict = .ok ()
  /-- Named types with the same bare name are the same. -/
  consistent : ∀ b type type', Meets answer name b type → Meets answer name b type' → type = type'

section

variable {answer : String → Except Error Record} {root : String}

theorem Meets.reachable {name : String} (h : Meets answer root name .record) :
    Reachable answer root name := by
  cases h with
  | record h => exact h
  | @field other record f e _ _ h hr hf hw he =>
      cases e <;> cases he
      exact h.tail ⟨record, hr, f, hf, hw⟩

end

/-- What is wrong with something that can be met from a record: a record that can be reached is not
there, the default of one of its fields fails its check, or a named type within the type of such a
field has its name in common with another one. -/
inductive Problem (answer : String → Except Error Record) (strict : Bool) (root : String) :
    Error → Prop
  | unresolved {other : String} {e : Error} :
      Reachable answer root other → answer other = .error e → Problem answer strict root e
  | default {other : String} {record : Record} {f : Field} {e : Error} :
      Reachable answer root other → answer other = .ok record → f ∈ record.fields →
      checkDefault other f strict = .error e → Problem answer strict root e
  | nameTaken {other : String} {record : Record} {f : Field} {d : Descriptor} {b : String}
      {type type' : NamedType} :
      Reachable answer root other → answer other = .ok record → f ∈ record.fields →
      Descriptor.Within d f.type → d.named? = some (b, type) → Meets answer root b type' →
      type' ≠ type → Problem answer strict root (.schema other none (.nameTaken b))

/-- Nothing is wrong with a record that is buildable. -/
theorem Buildable.not_problem {answer : String → Except Error Record} {strict : Bool}
    {root : String} (hb : Buildable answer strict root) {e : Error} :
    ¬ Problem answer strict root e := by
  intro h
  cases h with
  | unresolved hreach he =>
      obtain ⟨record, hr⟩ := hb.resolves _ hreach
      cases hr.symm.trans he
  | default hreach hr hf he =>
      cases (hb.defaults _ _ hreach hr _ hf).symm.trans he
  | nameTaken hreach hr hf hw hd hmeets hne =>
      exact hne (hb.consistent _ _ _ hmeets (.field hreach hr hf hw hd))

/-- The type stands in a field of the record: the named types within it are within the type of the
field, and the record can be reached. -/
def StandsIn (answer : String → Except Error Record) (root owner : String) (d : Descriptor) :
    Prop :=
  Reachable answer root owner ∧ ∃ record, answer owner = .ok record ∧ ∃ f ∈ record.fields,
    ∀ e, e.isNamed = true → Descriptor.Within e d → Descriptor.Within e f.type

namespace StandsIn

variable {answer : String → Except Error Record} {strict : Bool} {root owner : String}
  {d e : Descriptor} {b : String} {type type' : NamedType}

theorem part (h : StandsIn answer root owner d)
    (hpart : ∀ e', e'.isNamed = true → Descriptor.Within e' e → Descriptor.Within e' d) :
    StandsIn answer root owner e := by
  obtain ⟨hreach, record, hr, f, hf, hw⟩ := h
  exact ⟨hreach, record, hr, f, hf, fun e' he' hw' => hw e' he' (hpart e' he' hw')⟩

theorem alternative (h : StandsIn answer root owner d) (he : e ∈ d.alternatives) :
    StandsIn answer root owner e :=
  h.part fun _ hn hw =>
    Descriptor.within_of_mem_alternatives (Descriptor.isNull_of_isNamed hn) he hw

theorem meets (h : StandsIn answer root owner d) (hd : d.named? = some (b, type)) :
    Meets answer root b type := by
  obtain ⟨hreach, record, hr, f, hf, hw⟩ := h
  exact .field hreach hr hf (hw d (Descriptor.isNamed_of_named? hd) .refl) hd

/-- It is a problem if another type with the name can be met. -/
theorem problem (h : StandsIn answer root owner d) (hd : d.named? = some (b, type))
    (hmeets : Meets answer root b type') (hne : type' ≠ type) :
    Problem answer strict root (.schema owner none (.nameTaken b)) := by
  obtain ⟨hreach, record, hr, f, hf, hw⟩ := h
  exact .nameTaken hreach hr hf (hw d (Descriptor.isNamed_of_named? hd) .refl) hd hmeets hne

end StandsIn

namespace Schema

/-! ### The walk as far as it goes -/

/-- The walk is on its way from the record: the registry gives the answers, all that is defined can
be met, and there are more expansions left than known names that are not defined. -/
structure OnWay (answer : String → Except Error Record) (root : String) (known : List String)
    (budget : Nat) (s : Expansion) : Prop where
  answers : Answers answer s.registry
  met : ∀ b d, (b, d) ∈ s.definitions → Meets answer root b d.type
  enough : pending known s.definitions < budget

/-- What lasts through the walk from a record: through fetching a record that can be reached, and
through a definition, which is one of a record only if the registry keeps it. -/
structure Lasting (answer : String → Except Error Record) (root : String)
    (J : Expansion → Prop) : Prop where
  fetch : ∀ s name, Reachable answer root name → J s →
    J { s with registry := s.registry.remember name }
  define : ∀ s name d, (d.type = .record → s.registry.contains name = true) → J s →
    J { s with definitions := Keyed.put name d s.definitions }

/-- The run from a state gives a value or a problem.  It leaves the walk on its way, and what lasts
as it is. -/
abbrev ProceedsFrom {α : Type} (answer : String → Except Error Record) (strict : Bool)
    (root : String) (known : List String) (J : Expansion → Prop) (budget : Nat)
    (m : ExpansionM α) (s : Expansion) : Prop :=
  (OnWay answer root known budget (m.run s).2 ∧ J (m.run s).2) ∧
    Stateful.Outcome (fun _ => True) (Problem answer strict root) (m.run s).1

/-- The runs from all states on the way give a value or a problem. -/
abbrev Proceeds {α : Type} (answer : String → Except Error Record) (strict : Bool)
    (root : String) (known : List String) (J : Expansion → Prop) (budget : Nat)
    (m : ExpansionM α) : Prop :=
  Gives (fun s => OnWay answer root known budget s ∧ J s) m (fun _ => True)
    (Problem answer strict root)

/-- The computation gives a schema or a problem for every record that can be reached and is not
defined yet. -/
def ExpandProceeds (answer : String → Except Error Record) (strict : Bool) (root : String)
    (known : List String) (J : Expansion → Prop) (budget : Nat)
    (expand : Scope → String → ExpansionM Schema) : Prop :=
  ∀ scope name s, OnWay answer root known budget s → J s → name ∉ Keyed.keys s.definitions →
    Reachable answer root name →
    ProceedsFrom answer strict root known J budget (expand scope name) s

section

variable {answer : String → Except Error Record} {strict : Bool} {root : String}
  {known : List String} {J : Expansion → Prop} {budget : Nat}
  {expand : Scope → String → ExpansionM Schema}

theorem definition?_gives (name : String) :
    Gives (fun s => OnWay answer root known budget s ∧ J s) (definition? name)
      (fun d? => ∀ d, d? = some d → Meets answer root name d.type)
      (Problem answer strict root) := by
  intro s hs
  refine ⟨hs, ?_⟩
  intro d hd
  exact hs.1.met name d (Keyed.mem_of_get? hd)

/-- A type that can be met may be defined. -/
theorem OnWay.define {s : Expansion} (hs : OnWay answer root known budget s) {name : String}
    {d : NamedDefinition} (h : Meets answer root name d.type) :
    OnWay answer root known budget { s with definitions := Keyed.put name d s.definitions } := by
  refine ⟨hs.answers, fun b e he => ?_, ?_⟩
  · rcases Keyed.mem_put he with he | he
    · cases he
      exact h
    · exact hs.met b e he
  · exact Nat.lt_of_le_of_lt (pending_define_le known name d s.definitions) hs.enough

/-- An enumeration or fixed bytes: what is defined under the name already is the same type, or it is
a problem. -/
theorem named_proceeds (hJ : Lasting answer root J) (scope : Scope) {d : Descriptor}
    {name : String} {type : NamedType} (full : Schema)
    (h : StandsIn answer root scope.record d) (hd : d.named? = some (name, type))
    (htype : type ≠ .record) :
    Proceeds answer strict root known J budget (named scope name type full) := by
  refine Gives.bind (definition?_gives name) fun d? hd? => ?_
  cases d? with
  | none =>
      refine Gives.bind (Q := fun _ => True) ?_ fun _ _ => Gives.pure trivial
      rintro s ⟨hs, hlasts⟩
      exact ⟨⟨hs.define (h.meets hd), hJ.define s name _ (fun hrec => absurd hrec htype) hlasts⟩,
        trivial⟩
  | some defined =>
      dsimp only
      split
      · exact Gives.pure trivial
      · rename_i hne
        exact Gives.throw (h.problem hd (hd? defined rfl) hne)

/-- A reference to a record: what is defined under the name already is a record, or it is a
problem. -/
theorem referenced_proceeds
    (hexpand : ExpandProceeds answer strict root known J budget expand) (scope : Scope)
    {name : String} (h : StandsIn answer root scope.record (.reference name)) :
    Proceeds answer strict root known J budget (referenced expand scope name) := by
  rintro s ⟨hs, hlasts⟩
  rw [referenced, run_bind, definition?_run]
  cases hget : Keyed.get? name s.definitions with
  | none =>
      exact hexpand scope name s hs hlasts ((Keyed.get?_eq_none_iff _ _).mp hget)
        (h.meets rfl).reachable
  | some d =>
      have hd := hs.met name d (Keyed.mem_of_get? hget)
      dsimp only
      split
      · exact ⟨⟨hs, hlasts⟩, trivial⟩
      · rename_i hne
        exact ⟨⟨hs, hlasts⟩, h.problem rfl hd hne⟩

/-- The walk through a type that stands in a field. -/
theorem ofDescriptor_proceeds (hJ : Lasting answer root J)
    (hexpand : ExpandProceeds answer strict root known J budget expand) (scope : Scope)
    (d : Descriptor) (h : StandsIn answer root scope.record d) :
    Proceeds answer strict root known J budget (ofDescriptor expand scope d) := by
  induction d using Descriptor.induction_alternatives with
  | primitive kind =>
      rw [ofDescriptor]
      exact Gives.pure trivial
  | logical kind =>
      rw [ofDescriptor]
      exact Gives.pure trivial
  | fixed type =>
      rw [ofDescriptor]
      exact named_proceeds hJ scope _ h rfl (by simp)
  | enum type =>
      rw [ofDescriptor]
      exact named_proceeds hJ scope _ h rfl (by simp)
  | array items ih =>
      rw [ofDescriptor]
      exact Gives.map (ih (h.part fun _ _ hw => .items hw)) fun _ _ => trivial
  | map values ih =>
      rw [ofDescriptor]
      exact Gives.map (ih (h.part fun _ _ hw => .values hw)) fun _ _ => trivial
  | choice d hd ih =>
      rw [ofDescriptor_of_hasAlternatives _ _ hd]
      have hmembers := Gives.mapM fun m hm => ih m hm (h.alternative hm)
      exact Gives.map hmembers fun _ _ => trivial
  | reference name =>
      rw [ofDescriptor]
      exact referenced_proceeds hexpand scope h

/-- The walk through a field: the check of the default comes first. -/
theorem ofField_proceeds (hJ : Lasting answer root J)
    (hexpand : ExpandProceeds answer strict root known J budget expand) (scope : Scope)
    {record : Record} {f : Field} (hreach : Reachable answer root scope.record)
    (hr : answer scope.record = .ok record) (hf : f ∈ record.fields) :
    Proceeds answer strict root known J budget (ofField expand strict scope f) := by
  have hstands : StandsIn answer root scope.record f.type :=
    ⟨hreach, record, hr, f, hf, fun _ _ hw => hw⟩
  have hcheck : Proceeds answer strict root known J budget
      (ExceptT.mk (pure (checkDefault scope.record f strict)) : ExpansionM Unit) := by
    intro s hs
    refine ⟨hs, ?_⟩
    change Stateful.Outcome _ _ (checkDefault scope.record f strict)
    cases hcheck : checkDefault scope.record f strict with
    | ok _ => trivial
    | error e => exact .default hreach hr hf hcheck
  refine Gives.bind hcheck fun _ _ => ?_
  dsimp only
  split
  · have hmember : ∀ m ∈ writtenAlternatives f.type f.default,
        Proceeds answer strict root known J budget (ofDescriptor expand scope m) := fun m hm =>
      ofDescriptor_proceeds hJ hexpand scope m
        (hstands.alternative (mem_writtenAlternatives.mp hm))
    have hunion : Proceeds answer strict root known J budget (Schema.union <$>
        (writtenAlternatives f.type f.default).mapM (ofDescriptor expand scope)) :=
      Gives.map (Gives.mapM hmember) fun _ _ => trivial
    exact Gives.bind hunion fun _ _ => Gives.pure trivial
  · exact Gives.bind (ofDescriptor_proceeds hJ hexpand scope f.type hstands)
      fun _ _ => Gives.pure trivial

/-- The walk through a record that can be reached and is kept. -/
theorem ofFetched_proceeds (hJ : Lasting answer root J)
    (hexpand : ExpandProceeds answer strict root known J budget expand) (outer : Scope)
    {record : Record} (hreach : Reachable answer root record.name)
    (hr : answer record.name = .ok record) (hk : record.name ∈ known) {s : Expansion}
    (hs : OnWay answer root known (budget + 1) s) (hlasts : J s)
    (hkept : s.registry.contains record.name = true)
    (hfresh : record.name ∉ Keyed.keys s.definitions) :
    ProceedsFrom answer strict root known J (budget + 1)
      (ofFetched expand strict outer record) s := by
  let scope : Scope := ⟨record.name, record.space.or outer.space⟩
  let d : NamedDefinition := ⟨Record.qualify scope.space record.name, .record⟩
  have hdefined := hs.define (d := d) (Meets.record hreach)
  -- the name of the record is defined, so that an expansion less will do below it
  have hlt := pending_define_lt d hk hfresh
  have hbelow : OnWay answer root known budget ((define record.name d).run s).2 :=
    ⟨hdefined.answers, hdefined.met, Nat.lt_of_lt_of_le hlt (Nat.le_of_lt_succ hs.enough)⟩
  have hlasts' : J ((define record.name d).run s).2 :=
    hJ.define s record.name d (fun _ => hkept) hlasts
  have hfields := Gives.mapM fun f hf =>
    ofField_proceeds hJ hexpand scope (f := f) hreach hr hf
  have hschema : Proceeds answer strict root known J budget
      (record.fields.mapM (ofField expand strict scope) >>= fun fields => pure
        (Schema.record ⟨record.name, record.space, record.doc, record.aliases, fields⟩)) :=
    Gives.bind hfields fun _ _ => Gives.pure trivial
  obtain ⟨⟨hafter, hlasting⟩, houtcome⟩ := hschema _ ⟨hbelow, hlasts'⟩
  exact ⟨⟨⟨hafter.answers, hafter.met, Nat.lt_succ_of_lt hafter.enough⟩, hlasting⟩, houtcome⟩

/-- **The walk gives a schema, or something is a problem.** -/
theorem expandF_proceeds (ha : Settled answer) (hJ : Lasting answer root J)
    (hk : ∀ n record, answer n = .ok record → n ∈ known) (budget : Nat) :
    ExpandProceeds answer strict root known J budget (expandF strict budget) := by
  induction budget with
  | zero =>
      intro outer name s hs
      exact absurd hs.enough (Nat.not_lt_zero _)
  | succ budget ih =>
      intro outer name s hs hlasts hfresh hreach
      have hfetched : OnWay answer root known (budget + 1)
          ⟨s.registry.remember name, s.definitions⟩ :=
        ⟨hs.answers.remember name, hs.met, hs.enough⟩
      have hlasts' := hJ.fetch s name hreach hlasts
      rw [expandF_succ, ProceedsFrom, run_bind, fetch_run]
      cases hr : s.registry.answer name with
      | error e =>
          have he : answer name = .error e := (congrFun hs.answers name).symm.trans hr
          exact ⟨⟨hfetched, hlasts'⟩, .unresolved hreach he⟩
      | ok record =>
          have hrecord : answer name = .ok record := (congrFun hs.answers name).symm.trans hr
          have hkept := Registry.contains_remember hr
          cases ha.name_eq hrecord
          exact ofFetched_proceeds hJ ih outer hreach hrecord (hk _ record hrecord) hfetched
            hlasts' hkept hfresh

end

/-! ### A schema was made -/

/-- The defaults of the record with the name pass their checks. -/
def DefaultsPass (answer : String → Except Error Record) (strict : Bool) (name : String) : Prop :=
  ∀ record, answer name = .ok record → ∀ f ∈ record.fields, checkDefault name f strict = .ok ()

/-- A run that gives a value changes no answer, and the defaults of every record that it defines
pass their checks. -/
def DefinesPassing {α : Type} (answer : String → Except Error Record) (strict : Bool)
    (m : ExpansionM α) : Prop :=
  ∀ s t a, m.run s = (.ok a, t) → Answers answer s.registry →
    Answers answer t.registry ∧ ∀ b d, (b, d) ∈ t.definitions → d.type = .record →
      (b, d) ∈ s.definitions ∨ DefaultsPass answer strict b

section

variable {α β : Type} {answer : String → Except Error Record} {strict : Bool}

namespace DefinesPassing

protected theorem pure (a : α) : DefinesPassing answer strict (pure a : ExpansionM α) := by
  intro s t b hrun hs
  cases hrun
  exact ⟨hs, fun _ _ hd _ => Or.inl hd⟩

protected theorem throw (e : Error) :
    DefinesPassing answer strict (throw e : ExpansionM α) := by
  intro s t b hrun hs
  cases hrun

protected theorem bind {m : ExpansionM α} {f : α → ExpansionM β}
    (hm : DefinesPassing answer strict m) (hf : ∀ a, DefinesPassing answer strict (f a)) :
    DefinesPassing answer strict (m >>= f) := by
  intro s t b hrun hs
  obtain ⟨a, u, hfirst, hnext⟩ := run_bind_eq_ok.mp hrun
  obtain ⟨hu, hdefines⟩ := hm s u a hfirst hs
  obtain ⟨ht, hdefines'⟩ := hf a u t b hnext hu
  refine ⟨ht, fun n d hd htype => ?_⟩
  rcases hdefines' n d hd htype with hd | hpass
  · exact hdefines n d hd htype
  · exact Or.inr hpass

protected theorem map {m : ExpansionM α} (hm : DefinesPassing answer strict m) (f : α → β) :
    DefinesPassing answer strict (f <$> m) := by
  rw [map_eq_pure_bind]
  exact DefinesPassing.bind hm fun a => DefinesPassing.pure (f a)

protected theorem mapM {f : α → ExpansionM β} {as : List α}
    (h : ∀ a ∈ as, DefinesPassing answer strict (f a)) :
    DefinesPassing answer strict (as.mapM f) := by
  induction as with
  | nil => exact DefinesPassing.pure []
  | cons a as ih =>
      rw [List.mapM_cons]
      refine DefinesPassing.bind (h a (List.mem_cons_self ..)) fun b => ?_
      refine DefinesPassing.bind (ih fun a' ha' => h a' (List.mem_cons_of_mem _ ha')) fun bs => ?_
      exact DefinesPassing.pure (b :: bs)

end DefinesPassing

theorem definition?_passes (name : String) :
    DefinesPassing answer strict (definition? name) := by
  intro s t a hrun hs
  cases hrun
  exact ⟨hs, fun _ _ hd _ => Or.inl hd⟩

/-- An enumeration or fixed bytes. -/
theorem named_passes (scope : Scope) (name : String) {type : NamedType} (h : type ≠ .record)
    (full : Schema) : DefinesPassing answer strict (named scope name type full) := by
  refine DefinesPassing.bind (definition?_passes name) fun d? => ?_
  cases d? with
  | none =>
      refine DefinesPassing.bind ?_ fun _ => DefinesPassing.pure full
      intro s t a hrun hs
      cases hrun
      refine ⟨hs, fun b d hd htype => ?_⟩
      rcases Keyed.mem_put hd with hd | hd
      · cases hd
        exact absurd htype h
      · exact Or.inl hd
  | some d =>
      dsimp only
      split
      · exact DefinesPassing.pure _
      · exact DefinesPassing.throw _

section

variable {expand : Scope → String → ExpansionM Schema}

/-- The walk through a type. -/
theorem ofDescriptor_passes
    (hexpand : ∀ scope name, DefinesPassing answer strict (expand scope name)) (scope : Scope)
    (d : Descriptor) :
    DefinesPassing answer strict (ofDescriptor expand scope d) := by
  induction d using Descriptor.induction_alternatives with
  | primitive kind =>
      rw [ofDescriptor]
      exact DefinesPassing.pure _
  | logical kind =>
      rw [ofDescriptor]
      exact DefinesPassing.pure _
  | fixed type =>
      rw [ofDescriptor]
      exact named_passes scope _ (by simp) _
  | enum type =>
      rw [ofDescriptor]
      exact named_passes scope _ (by simp) _
  | array items ih =>
      rw [ofDescriptor]
      exact DefinesPassing.map ih _
  | map values ih =>
      rw [ofDescriptor]
      exact DefinesPassing.map ih _
  | choice d hd ih =>
      rw [ofDescriptor_of_hasAlternatives _ _ hd]
      exact DefinesPassing.map (DefinesPassing.mapM ih) _
  | reference name =>
      rw [ofDescriptor]
      refine DefinesPassing.bind (definition?_passes name) fun d? => ?_
      cases d? with
      | none => exact hexpand scope name
      | some d =>
          dsimp only
          split
          · exact DefinesPassing.pure _
          · exact DefinesPassing.throw _

theorem check_of_ofField {scope : Scope} {f : Field} {s t : Expansion} {m : FieldSchema Schema}
    (hrun : (ofField expand strict scope f).run s = (.ok m, t)) :
    checkDefault scope.record f strict = .ok () := by
  unfold ofField at hrun
  obtain ⟨_, u, hcheck, -⟩ := run_bind_eq_ok.mp hrun
  exact congrArg Prod.fst hcheck

/-- The walk through a field. -/
theorem ofField_passes (hexpand : ∀ scope name, DefinesPassing answer strict (expand scope name))
    (scope : Scope) (f : Field) : DefinesPassing answer strict (ofField expand strict scope f) := by
  unfold ofField
  refine DefinesPassing.bind ?_ fun _ => ?_
  · intro s t a hrun hs
    cases (congrArg Prod.snd hrun : s = t)
    exact ⟨hs, fun _ _ hd _ => Or.inl hd⟩
  · dsimp only
    split
    · refine DefinesPassing.bind ?_ fun type => DefinesPassing.pure _
      exact DefinesPassing.map
        (DefinesPassing.mapM fun d _ => ofDescriptor_passes hexpand scope d) _
    · exact DefinesPassing.bind (ofDescriptor_passes hexpand scope f.type)
        fun type => DefinesPassing.pure _

/-- The walk through fields that gives schemas has found every default right. -/
theorem checks_of_ofFields {scope : Scope} {fs : List Field} {s t : Expansion}
    {ms : List (FieldSchema Schema)}
    (hrun : (fs.mapM (ofField expand strict scope)).run s = (.ok ms, t)) :
    ∀ f ∈ fs, checkDefault scope.record f strict = .ok () := by
  induction fs generalizing s t ms with
  | nil => simp
  | cons f rest ih =>
      rw [List.mapM_cons] at hrun
      obtain ⟨m, u, hfirst, hrun⟩ := run_bind_eq_ok.mp hrun
      obtain ⟨ms, v, hrest, -⟩ := run_bind_eq_ok.mp hrun
      intro g hg
      rcases List.mem_cons.mp hg with rfl | hg
      · exact check_of_ofField hfirst
      · exact ih hrest g hg

/-- The walk through a record: the record itself is defined, and its defaults pass. -/
theorem ofFetched_passes (hexpand : ∀ scope name, DefinesPassing answer strict (expand scope name))
    (outer : Scope) {record : Record} (hr : answer record.name = .ok record) :
    DefinesPassing answer strict (ofFetched expand strict outer record) := by
  intro s t n hrun hs
  obtain ⟨_, u, hdefine, hrun⟩ := run_bind_eq_ok.mp hrun
  cases hdefine
  obtain ⟨fs, w, hfields, hrun⟩ := run_bind_eq_ok.mp hrun
  cases hrun
  have hchecks := checks_of_ofFields hfields
  have hpasses : DefinesPassing answer strict (record.fields.mapM (ofField expand strict
      ⟨record.name, record.space.or outer.space⟩)) :=
    DefinesPassing.mapM fun f _ => ofField_passes hexpand _ f
  obtain ⟨ht, hdefines⟩ := hpasses _ t fs hfields hs
  refine ⟨ht, fun b d hd htype => ?_⟩
  rcases hdefines b d hd htype with hd | hpass
  · rcases Keyed.mem_put hd with hd | hd
    · cases hd
      refine Or.inr fun record' hr' f hf => ?_
      cases hr.symm.trans hr'
      exact hchecks f hf
    · exact Or.inl hd
  · exact Or.inr hpass

end

/-- **Where the walk gives a schema, the defaults of what it defines passed their checks.** -/
theorem expandF_passes (ha : Settled answer) (budget : Nat) (scope : Scope) (name : String) :
    DefinesPassing answer strict (expandF strict budget scope name) := by
  induction budget generalizing scope name with
  | zero => exact DefinesPassing.throw _
  | succ budget ih =>
      intro s t n hrun hs
      rw [expandF_succ] at hrun
      obtain ⟨record, u, hfetch, hrun⟩ := run_bind_eq_ok.mp hrun
      rw [fetch_run] at hfetch
      obtain ⟨hanswer, rfl⟩ := Prod.mk.inj hfetch
      have hr : answer name = .ok record := (congrFun hs name).symm.trans hanswer
      cases ha.name_eq hr
      have hpasses := ofFetched_passes ih scope hr _ t n hrun (hs.remember record.name)
      exact hpasses

end

/-! ### The schema of a record -/

/-- The expansion that the schema of a record comes from. -/
theorem run_ofRecord_eq_ok {r : Registry} {strict : Bool} {name : String} {n : Schema} :
    (∃ r', (ofRecord strict name).run r = (.ok n, r')) ↔
      ∃ t, (expandF strict (r.knownNames.length + 1) ⟨"", none⟩ name).run ⟨r, []⟩ = (.ok n, t) := by
  constructor
  · rintro ⟨r', hrun⟩
    have hanswer := congrArg Prod.fst hrun
    exact ⟨_, Prod.ext hanswer rfl⟩
  · rintro ⟨t, hrun⟩
    have hanswer := congrArg Prod.fst hrun
    exact ⟨_, Prod.ext hanswer rfl⟩

/-- The walk that a schema comes from is on its way from the record. -/
theorem start_proceeds {r : Registry} (ha : Settled r.answer) {strict : Bool} {name : String}
    {J : Expansion → Prop} (hJ : Lasting r.answer name J) (hstart : J ⟨r, []⟩) :
    ProceedsFrom r.answer strict name r.knownNames J (r.knownNames.length + 1)
      (expandF strict (r.knownNames.length + 1) ⟨"", none⟩ name) ⟨r, []⟩ := by
  have hway : OnWay r.answer name r.knownNames (r.knownNames.length + 1) ⟨r, []⟩ :=
    ⟨rfl, by simp, by simp⟩
  exact expandF_proceeds ha hJ hway.answers.mem_knownNames _ ⟨"", none⟩ name _ hway hstart
    (by simp) .refl

/-- **The error of a record without a schema is a problem.** -/
theorem problem_of_run {r r' : Registry} (ha : Settled r.answer) {strict : Bool} {name : String}
    {e : Error} (hrun : (ofRecord strict name).run r = (.error e, r')) :
    Problem r.answer strict name e := by
  have hproceeds : ProceedsFrom r.answer strict name r.knownNames (fun _ => True)
      (r.knownNames.length + 1) (expandF strict (r.knownNames.length + 1) ⟨"", none⟩ name)
      ⟨r, []⟩ :=
    start_proceeds ha ⟨fun _ _ _ _ => trivial, fun _ _ _ _ _ => trivial⟩ trivial
  have hanswer : ((expandF strict (r.knownNames.length + 1) ⟨"", none⟩ name).run ⟨r, []⟩).1 =
      .error e := congrArg Prod.fst hrun
  have houtcome := hproceeds.2
  rw [hanswer] at houtcome
  exact houtcome

/-- **A record that is buildable has a schema.** -/
theorem run_of_buildable {r : Registry} (ha : Settled r.answer) {strict : Bool} {name : String}
    (hb : Buildable r.answer strict name) : ∃ n r', (ofRecord strict name).run r = (.ok n, r') := by
  rcases hrun : (ofRecord strict name).run r with ⟨e | n, r'⟩
  · exact absurd (problem_of_run ha hrun) hb.not_problem
  · exact ⟨n, r', rfl⟩

/-- A record that stands in the schema is there. -/
theorem exists_answer_of_definition {answer : String → Except Error Record} (ha : Settled answer)
    {name : String} {T : Schema} (h : Renders answer [] none (.reference name) T)
    {other full : String} (hd : (other, ⟨full, .record⟩) ∈ T.definitions none) :
    ∃ record, answer other = .ok record := by
  obtain ⟨path, hpath⟩ := (mem_definitions_iff _ _ _).mp hd
  obtain ⟨r, hr, rfl⟩ := exists_recordAt? hpath
  obtain ⟨-, record, hrecord, -⟩ := (namedOnce_of_renders ha h).record_eq path r hr
  exact ⟨record, hrecord⟩

theorem exists_definition_of_meets {answer : String → Except Error Record} (ha : Settled answer)
    {name : String} {T : Schema} (h : Renders answer [] none (.reference name) T) {b : String}
    {type : NamedType} (hmeets : Meets answer name b type) :
    ∃ full, (b, ⟨full, type⟩) ∈ T.definitions none := by
  cases hmeets with
  | record hreach => exact exists_definition_of_reachable ha h hreach
  | field hreach hr hf hw he =>
      obtain ⟨path, ⟨full, hpath⟩, -⟩ :=
        (namedOnce_of_renders ha h).type_once _ _ hreach hr _ hf _ hw _ _ he
      exact ⟨full, (mem_definitions_iff _ _ _).mpr ⟨path, hpath⟩⟩

/-- **A record that has a schema is buildable.** -/
theorem buildable_of_run {r r' : Registry} (ha : Settled r.answer) {strict : Bool} {name : String}
    {T : Schema} (hrun : (ofRecord strict name).run r = (.ok T, r')) :
    Buildable r.answer strict name := by
  obtain ⟨t, ht⟩ := run_ofRecord_eq_ok.mp ⟨r', hrun⟩
  obtain ⟨-, hrenders, hdefinitions⟩ :=
    expandF_expands ha strict _ ⟨"", none⟩ name ⟨r, []⟩ t T rfl (by simp) ht
  obtain ⟨-, hpasses⟩ := expandF_passes ha _ ⟨"", none⟩ name ⟨r, []⟩ t T ht rfl
  have hnodup : (Keyed.keys (T.definitions none)).Nodup := hrenders.nodup List.nodup_nil
  refine ⟨fun other hreach => ?_, fun other record hreach hr => ?_, fun b type type' h h' => ?_⟩
  · obtain ⟨full, hd⟩ := exists_definition_of_reachable ha hrenders hreach
    exact exists_answer_of_definition ha hrenders hd
  · obtain ⟨full, hd⟩ := exists_definition_of_reachable ha hrenders hreach
    have hmem : (other, ⟨full, .record⟩) ∈ t.definitions := by
      rw [hdefinitions]
      exact hd
    rcases hpasses other _ hmem rfl with hnil | hpass
    · cases hnil
    · exact hpass record hr
  · obtain ⟨full, hd⟩ := exists_definition_of_meets ha hrenders h
    obtain ⟨full', hd'⟩ := exists_definition_of_meets ha hrenders h'
    have heq := List.inj_on_of_nodup_map hnodup hd hd' rfl
    cases heq
    rfl

end Schema

end RecordModel
