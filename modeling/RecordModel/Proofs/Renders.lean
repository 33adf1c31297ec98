/-
**Schemas that render types.**

A schema renders a type after some definitions when it is a reference to one of them, or when it
states the type in full: then it defines no name again, and the schemas below it render the parts of
the type, each after what is defined before it.  Nothing in this depends on the walk that makes the
schema, and everything that the walk makes is such a rendering.

Main definitions:

* `Descriptor.named?` — the name of a named type, and which one it is;
* `Descriptor.children`, `Field.writtenType` — the parts of a type, in the order of a schema;
* `Descriptor.at?` — the type at the end of a path;
* `Record.outline` — what a schema says of a record besides the types;
* `Heads` — a schema states a type in full, whatever is below it;
* `Renders` — renderings.

Main results:

* `Renders.part`, `Renders.at_place` — what is below a rendering renders the type at the same path;
* `Schema.ofDescriptor_builds`, `Schema.expandF_expands` — what the walk makes renders the type, and
  the walk carries its definitions;
* `Schema.ofRecord_renders` — **the schema of a record renders it**.
-/

import RecordModel.Proofs.Answers
import RecordModel.Proofs.SchemaPlaces

set_option relaxedAutoImplicit false
set_option autoImplicit false

namespace RecordModel

open Stateful

/-! ### Parts of types -/

/-- The type of a field as it is written, with its alternatives in their order. -/
def Field.writtenType (f : Field) : Descriptor :=
  if f.type.hasAlternatives then .union (writtenAlternatives f.type f.default) else f.type

namespace Descriptor

/-- The name of a named type, and which one it is. -/
def named? : Descriptor → Option (String × NamedType)
  | .fixed type => some (type.name, .fixed type)
  | .enum type => some (type.name, .enum type)
  | .reference name => some (name, .record)
  | _ => none

/-- The parts of a type in the order of a schema: a record has those of its fields. -/
def children (answer : String → Except Error Record) (d : Descriptor) : List Descriptor :=
  match d with
  | .array items => [items]
  | .map values => [values]
  | .reference name =>
      match answer name with
      | .ok record => record.fields.map Field.writtenType
      | .error _ => []
  | .union _ => d.alternatives
  | .optional _ => d.alternatives
  | _ => []

theorem children_of_hasAlternatives (answer : String → Except Error Record) {d : Descriptor}
    (h : d.hasAlternatives = true) : d.children answer = d.alternatives := by
  cases d <;> simp_all [hasAlternatives, children]

theorem children_reference {answer : String → Except Error Record} {name : String}
    {record : Record} (h : answer name = .ok record) :
    (Descriptor.reference name).children answer = record.fields.map Field.writtenType := by
  simp [children, h]

/-- The type at the end of a path through parts. -/
def at? (answer : String → Except Error Record) : Descriptor → List Nat → Option Descriptor
  | d, [] => some d
  | d, i :: path =>
      match (d.children answer)[i]? with
      | some e => at? answer e path
      | none => none

theorem at?_cons (answer : String → Except Error Record) (d : Descriptor) (i : Nat)
    (path : List Nat) :
    d.at? answer (i :: path) = (d.children answer)[i]?.bind fun e => e.at? answer path := by
  rw [at?]
  cases (d.children answer)[i]? <;> rfl

end Descriptor

/-! ### Outlines -/

/-- What a schema says of a field besides its type. -/
def Field.outline (f : Field) : FieldSchema Unit :=
  ⟨f.name, (), f.default.map Value.toJson, f.doc, f.aliases⟩

/-- What a schema says of a record besides the types of its fields. -/
def Record.outline (r : Record) : RecordSchema Unit :=
  ⟨r.name, r.space, r.doc, r.aliases, r.fields.map Field.outline⟩

/-- The schema of a field without its type. -/
def FieldSchema.outline {α : Type} (f : FieldSchema α) : FieldSchema Unit :=
  ⟨f.name, (), f.default, f.doc, f.aliases⟩

/-- The schema of a record without the types of its fields. -/
def RecordSchema.outline {α : Type} (r : RecordSchema α) : RecordSchema Unit :=
  ⟨r.name, r.space, r.doc, r.aliases, r.fields.map FieldSchema.outline⟩

theorem names_of_outline {α : Type} {r : RecordSchema α} {record : Record}
    (h : r.outline = record.outline) : r.fields.map (·.name) = record.fields.map (·.name) := by
  have hfields := congrArg (fun o => o.fields.map (·.name)) h
  simpa [RecordSchema.outline, Record.outline, FieldSchema.outline, Field.outline,
    Function.comp_def] using hfields

theorem outlines_of_forall₂ {α : Type} {fs : List Field} {ms : List (FieldSchema α)}
    (h : List.Forall₂ (fun f m => m.outline = f.outline) fs ms) :
    ms.map FieldSchema.outline = fs.map Field.outline := by
  induction h with
  | nil => rfl
  | cons h _ ih => rw [List.map_cons, List.map_cons, h, ih]

/-! ### Renderings -/

/-- The schema states the type in full, whatever is below it. -/
inductive Heads (answer : String → Except Error Record) : Descriptor → Schema → Prop
  | primitive (kind : Primitive) : Heads answer (.primitive kind) (.primitive kind)
  | logical (kind : Logical) : Heads answer (.logical kind) (.logical kind)
  | fixed (type : FixedBytes) : Heads answer (.fixed type) (.fixed type)
  | enum (type : Enumeration) : Heads answer (.enum type) (.enum type)
  | array (items : Descriptor) (n : Schema) : Heads answer (.array items) (.array n)
  | map (values : Descriptor) (n : Schema) : Heads answer (.map values) (.map n)
  | union {d : Descriptor} (members : List Schema) :
      d.hasAlternatives = true → Heads answer d (.union members)
  | record {name : String} {record : Record} {r : RecordSchema Schema} :
      answer name = .ok record → r.outline = record.outline →
      Heads answer (.reference name) (.record r)

/-- What is defined before the `i`-th schema below a schema, and in it. -/
def Schema.definedBefore (space : Option String) (n : Schema) (i : Nat) :
    List (String × NamedDefinition) :=
  (n.defines space).toList ++ (n.children.take i).flatMap (Schema.definitions (n.inner space))

/-- The schema renders the type where a name space is in force and some definitions were made
before. -/
inductive Renders (answer : String → Except Error Record) :
    List (String × NamedDefinition) → Option String → Descriptor → Schema → Prop
  | back {before : List (String × NamedDefinition)} {space : Option String} {d : Descriptor}
      {b full : String} {type : NamedType} :
      d.named? = some (b, type) → Keyed.get? b before = some ⟨full, type⟩ →
      Renders answer before space d (.reference full)
  | full {before : List (String × NamedDefinition)} {space : Option String} {d : Descriptor}
      {n : Schema} :
      Heads answer d n → (∀ e ∈ n.defines space, e.1 ∉ Keyed.keys before) →
      n.children.length = (d.children answer).length →
      (∀ (i : Nat) (m : Schema) (e : Descriptor), n.children[i]? = some m →
        (d.children answer)[i]? = some e →
        Renders answer (before ++ n.definedBefore space i) (n.inner space) e m) →
      Renders answer before space d n

/-- The schemas render the types, each after what the ones before it define. -/
def RendersAll (answer : String → Except Error Record) (before : List (String × NamedDefinition))
    (space : Option String) (ds : List Descriptor) (ns : List Schema) : Prop :=
  ns.length = ds.length ∧
    ∀ (i : Nat) (m : Schema) (e : Descriptor), ns[i]? = some m → ds[i]? = some e →
      Renders answer (before ++ (ns.take i).flatMap (Schema.definitions space)) space e m

section

variable {answer : String → Except Error Record} {before : List (String × NamedDefinition)}
  {space : Option String}

/-- A schema in full renders a type when the schemas below it render its parts. -/
theorem Renders.of_all {d : Descriptor} {n : Schema} (hd : Heads answer d n)
    (hn : ∀ e ∈ n.defines space, e.1 ∉ Keyed.keys before)
    (h : RendersAll answer (before ++ (n.defines space).toList) (n.inner space)
      (d.children answer) n.children) : Renders answer before space d n := by
  refine .full hd hn h.1 fun i m e hm he => ?_
  rw [Schema.definedBefore, ← List.append_assoc]
  exact h.2 i m e hm he

theorem rendersAll_nil : RendersAll answer before space [] [] :=
  ⟨rfl, fun _ _ _ hm => by simp at hm⟩

theorem RendersAll.cons {d : Descriptor} {ds : List Descriptor} {n : Schema} {ns : List Schema}
    (hn : Renders answer before space d n)
    (hns : RendersAll answer (before ++ n.definitions space) space ds ns) :
    RendersAll answer before space (d :: ds) (n :: ns) := by
  refine ⟨by simp [hns.1], fun i m e hm he => ?_⟩
  cases i with
  | zero =>
      simp only [List.getElem?_cons_zero, Option.some.injEq] at hm he
      subst hm he
      simpa using hn
  | succ i =>
      have h := hns.2 i m e (by simpa using hm) (by simpa using he)
      rw [List.append_assoc] at h
      simpa using h

end

/-! ### Places in renderings -/

namespace Schema

/-- What is defined before a schema that is right below another one, or in it, is defined by the
other one or in it. -/
theorem definedBefore_subset {space : Option String} {n m : Schema} {i : Nat}
    (hi : n.children[i]? = some m) :
    n.definedBefore space i ++ m.definitions (n.inner space) ⊆ n.definitions space := by
  intro e he
  rw [definitions_eq]
  simp only [definedBefore, List.append_assoc, List.mem_append, List.mem_flatMap] at he ⊢
  rcases he with he | ⟨m', hm', he⟩ | he
  · exact Or.inl he
  · exact Or.inr ⟨m', List.mem_of_mem_take hm', he⟩
  · exact Or.inr ⟨m, List.mem_of_getElem? hi, he⟩

/-- What is defined before a schema that is right below another one is defined at a path before
it. -/
theorem path_of_definedBefore {space : Option String} {n : Schema} {i : Nat} {path : List Nat}
    {e : String × NamedDefinition} (he : e ∈ n.definedBefore space i) :
    ∃ q, q < i :: path ∧ n.definesAt? space q = some e := by
  rcases List.mem_append.mp he with he | he
  · exact ⟨[], List.nil_lt_cons _ _, Option.mem_toList.mp he⟩
  · obtain ⟨m, hm, he⟩ := List.mem_flatMap.mp he
    obtain ⟨j, hj, rfl⟩ := List.mem_take_iff_getElem.mp hm
    obtain ⟨q, hq⟩ := (mem_definitions_iff _ _ _).mp he
    refine ⟨j :: q, List.cons_lt_cons_iff.mpr (Or.inl (by omega)), ?_⟩
    rw [definesAt?_cons, List.getElem?_eq_getElem]
    exact hq

end Schema

theorem Renders.heads_record {answer : String → Except Error Record}
    {before : List (String × NamedDefinition)} {space : Option String} {d : Descriptor}
    {r : RecordSchema Schema} (h : Renders answer before space d (.record r)) :
    Heads answer d (.record r) := by
  cases h with
  | full hheads _ _ _ => exact hheads

/-- The parts of a type that is stated in full are rendered below it. -/
theorem Renders.part {answer : String → Except Error Record}
    {before : List (String × NamedDefinition)} {space : Option String} {d : Descriptor}
    {n : Schema} (h : Renders answer before space d n) (hd : Heads answer d n) {i : Nat}
    {e : Descriptor} (he : (d.children answer)[i]? = some e) :
    ∃ m before', n.children[i]? = some m ∧ Renders answer before' (n.inner space) e m ∧
      before' ++ m.definitions (n.inner space) ⊆ before ++ n.definitions space := by
  cases h with
  | back _ _ => cases hd
  | full _ _ hlen hparts =>
      obtain ⟨hlt, -⟩ := List.getElem?_eq_some_iff.mp he
      have hm := List.getElem?_eq_getElem (hlen.symm ▸ hlt)
      refine ⟨_, _, hm, hparts i _ e hm he, fun x hx => ?_⟩
      rw [List.append_assoc, List.mem_append] at hx
      rw [List.mem_append]
      exact hx.imp_right fun h => Schema.definedBefore_subset hm h

/-- **At every place of a rendering the schema renders the type at the same path**, after
definitions that were there or are made at paths before. -/
theorem Renders.at_place {answer : String → Except Error Record}
    {before : List (String × NamedDefinition)} {space : Option String} {d : Descriptor}
    {n : Schema} (h : Renders answer before space d n) {path : List Nat}
    {space' : Option String} {n' : Schema} (hn : n.place? space path = some (space', n')) :
    ∃ before' d', d.at? answer path = some d' ∧ Renders answer before' space' d' n' ∧
      before' ++ n'.definitions space' ⊆ before ++ n.definitions space ∧
      ∀ e ∈ before', e ∈ before ∨ ∃ q, q < path ∧ n.definesAt? space q = some e := by
  -- induction on the rendering, along the path
  induction h generalizing path with
  | @back before space d b full type hd hget =>
      cases path with
      | nil =>
          cases hn
          exact ⟨before, d, rfl, .back hd hget, List.Subset.refl _, fun e he => Or.inl he⟩
      | cons i path => simp [Schema.place?_cons, Schema.children] at hn
  | @full before space d n hheads hfresh hlen hparts ih =>
      cases path with
      | nil =>
          cases hn
          exact ⟨before, d, rfl, .full hheads hfresh hlen hparts, List.Subset.refl _,
            fun e he => Or.inl he⟩
      | cons i path =>
          rw [Schema.place?_cons] at hn
          obtain ⟨m, hm, hn⟩ := Option.bind_eq_some_iff.mp hn
          obtain ⟨hi, -⟩ := List.getElem?_eq_some_iff.mp hm
          have he := List.getElem?_eq_getElem (hlen ▸ hi)
          obtain ⟨before', d', hd', hrenders, hsub, hbefore⟩ := ih i m _ hm he hn
          refine ⟨before', d', ?_, hrenders, ?_, fun e he => ?_⟩
          · rw [Descriptor.at?_cons, he]
            exact hd'
          · intro e he
            have he := hsub he
            rw [List.append_assoc, List.mem_append] at he
            rw [List.mem_append]
            exact he.imp_right fun he => Schema.definedBefore_subset hm he
          · rcases hbefore e he with he | ⟨q, hq, he⟩
            · exact (List.mem_append.mp he).imp_right Schema.path_of_definedBefore
            · refine Or.inr ⟨i :: q, List.cons_lt_cons_iff.mpr (Or.inr ⟨rfl, hq⟩), ?_⟩
              rw [Schema.definesAt?_cons, hm]
              exact he

namespace Schema

/-! ### The walk -/

/-- What the computation makes: `node` of its value is a schema that renders the type, `P` holds of
the value, and the definitions of the schema are carried on behind those there were. -/
def Builds {α : Type} (answer : String → Except Error Record) (m : ExpansionM α)
    (node : α → Schema) (space : Option String) (d : Descriptor) (P : α → Prop) : Prop :=
  ∀ s t a, s.registry.answer = answer → m.run s = (.ok a, t) →
    t.registry.answer = answer ∧ P a ∧ Renders answer s.definitions space d (node a) ∧
      t.definitions = s.definitions ++ (node a).definitions space

/-- The computation makes the schema of a record that is not defined yet. -/
def Expands (answer : String → Except Error Record)
    (expand : Scope → String → ExpansionM Schema) : Prop :=
  ∀ scope name s t n, s.registry.answer = answer → name ∉ Keyed.keys s.definitions →
    (expand scope name).run s = (.ok n, t) →
    t.registry.answer = answer ∧ Renders answer s.definitions scope.space (.reference name) n ∧
      t.definitions = s.definitions ++ n.definitions scope.space

section

variable {answer : String → Except Error Record}

theorem definition?_run (name : String) (s : Expansion) :
    (definition? name).run s = (.ok (Keyed.get? name s.definitions), s) := rfl

theorem define_run {name : String} (d : NamedDefinition) {s : Expansion}
    (h : name ∉ Keyed.keys s.definitions) :
    (define name d).run s = (.ok (), { s with definitions := s.definitions ++ [(name, d)] }) := by
  rw [← Keyed.put_of_not_mem d h]
  rfl

/-- One schema for each of some things. -/
theorem mapM_builds {α β : Type} {f : α → ExpansionM β} {node : β → Schema}
    {d : α → Descriptor} {P : α → β → Prop} {space : Option String} {as : List α}
    (h : ∀ a ∈ as, Builds answer (f a) node space (d a) (P a)) {s t : Expansion} {bs : List β}
    (hs : s.registry.answer = answer) (hrun : (as.mapM f).run s = (.ok bs, t)) :
    t.registry.answer = answer ∧ List.Forall₂ P as bs ∧
      RendersAll answer s.definitions space (as.map d) (bs.map node) ∧
      t.definitions = s.definitions ++ (bs.map node).flatMap (definitions space) := by
  induction as generalizing s bs with
  | nil =>
      rw [List.mapM_nil] at hrun
      cases hrun
      exact ⟨hs, .nil, rendersAll_nil, by simp⟩
  | cons a rest ih =>
      rw [List.mapM_cons] at hrun
      obtain ⟨b, u, hb, hrun⟩ := run_bind_eq_ok.mp hrun
      obtain ⟨bs, w, hbs, hrun⟩ := run_bind_eq_ok.mp hrun
      cases hrun
      obtain ⟨hu, hP, hrenders, hdefs⟩ := h a (List.mem_cons_self ..) s u b hs hb
      obtain ⟨ht, hPs, hall, hdefs'⟩ := ih (fun a' ha' => h a' (List.mem_cons_of_mem _ ha')) hu hbs
      rw [hdefs] at hall hdefs'
      exact ⟨ht, .cons hP hPs, .cons hrenders hall, by simp [hdefs']⟩

section

variable {space : Option String} {d : Descriptor}

theorem leaf_builds {n : Schema} (hheads : Heads answer d n) (hdefines : n.defines space = none)
    (hn : n.children = []) (hc : d.children answer = []) :
    Builds answer (pure n) id space d fun _ => True := by
  intro s t m hs hrun
  cases hrun
  refine ⟨hs, trivial, .of_all hheads (by simp [hdefines]) ?_, ?_⟩
  · rw [id, hn, hc]
    exact rendersAll_nil
  · simp [definitions_eq, hdefines, hn]

/-- A type with one part, whose schema `wrap` is put around. -/
theorem collection_builds {wrap : Schema → Schema} {part : Descriptor} {m : ExpansionM Schema}
    (hheads : ∀ n, Heads answer d (wrap n)) (hdefines : ∀ n, (wrap n).defines space = none)
    (hinner : ∀ n, (wrap n).inner space = space) (hn : ∀ n, (wrap n).children = [n])
    (hc : d.children answer = [part]) (h : Builds answer m id space part fun _ => True) :
    Builds answer (wrap <$> m) id space d fun _ => True := by
  intro s t n hs hrun
  obtain ⟨p, hp, rfl⟩ := run_map_eq_ok.mp hrun
  obtain ⟨ht, -, hrenders, hdefs⟩ := h s t p hs hp
  refine ⟨ht, trivial, .of_all (hheads p) (by simp [hdefines]) ?_, ?_⟩
  · rw [id, hinner, hn, hc, hdefines, Option.toList_none, List.append_nil]
    exact .cons hrenders rendersAll_nil
  · simp [definitions_eq _ (wrap p), hdefines, hinner, hn, hdefs]

/-- A type with alternatives, in the order in which they are written. -/
theorem union_builds {f : Descriptor → ExpansionM Schema} {members : List Descriptor}
    (hd : d.hasAlternatives = true) (hc : d.children answer = members)
    (h : ∀ m ∈ members, Builds answer (f m) id space m fun _ => True) :
    Builds answer (Schema.union <$> members.mapM f) id space d fun _ => True := by
  intro s t n hs hrun
  obtain ⟨ms, hms, rfl⟩ := run_map_eq_ok.mp hrun
  obtain ⟨ht, -, hall, hdefs⟩ := mapM_builds (d := id) h hs hms
  refine ⟨ht, trivial, .of_all (.union ms hd) (by simp [defines]) ?_, ?_⟩
  · rw [hc]
    simpa [defines, children, inner] using hall
  · simp [definitions_eq _ (.union ms), defines, children, inner, hdefs]

end

/-- An enumeration or fixed bytes. -/
theorem named_builds {scope : Scope} {name : String} {type : NamedType} {d : Descriptor}
    {n : Schema} (hd : d.named? = some (name, type)) (hheads : Heads answer d n)
    (hdefines : n.defines scope.space = some (name, ⟨Record.qualify scope.space name, type⟩))
    (hn : n.children = []) (hc : d.children answer = []) :
    Builds answer (named scope name type n) id scope.space d fun _ => True := by
  intro s t m hs hrun
  obtain ⟨d?, u, hdef, hrun⟩ := run_bind_eq_ok.mp hrun
  rw [definition?_run] at hdef
  cases hdef
  cases hget : Keyed.get? name s.definitions with
  | none =>
      have hfresh := (Keyed.get?_eq_none_iff _ _).mp hget
      rw [hget] at hrun
      obtain ⟨_, w, hdefine, hrun⟩ := run_bind_eq_ok.mp hrun
      rw [define_run _ hfresh] at hdefine
      cases hdefine
      cases hrun
      refine ⟨hs, trivial, .of_all hheads ?_ ?_, ?_⟩
      · intro e he
        rw [id, hdefines] at he
        cases he
        exact hfresh
      · rw [id, hn, hc]
        exact rendersAll_nil
      · simp [definitions_eq, hdefines, hn]
  | some e =>
      rw [hget] at hrun
      dsimp only at hrun
      split at hrun
      · rename_i htype
        cases hrun
        obtain ⟨full, type'⟩ := e
        cases htype
        refine ⟨hs, trivial, .back hd hget, ?_⟩
        simp [definitions_eq, defines, children]
      · cases hrun

/-- A reference to a record. -/
theorem referenced_builds {expand : Scope → String → ExpansionM Schema}
    (hexpand : Expands answer expand) (scope : Scope) (name : String) :
    Builds answer (referenced expand scope name) id scope.space (.reference name)
      fun _ => True := by
  intro s t m hs hrun
  obtain ⟨d?, u, hdef, hrun⟩ := run_bind_eq_ok.mp hrun
  rw [definition?_run] at hdef
  cases hdef
  cases hget : Keyed.get? name s.definitions with
  | none =>
      rw [hget] at hrun
      have hfresh := (Keyed.get?_eq_none_iff _ _).mp hget
      obtain ⟨ht, hrenders, hdefs⟩ := hexpand scope name s t m hs hfresh hrun
      exact ⟨ht, trivial, hrenders, hdefs⟩
  | some e =>
      rw [hget] at hrun
      dsimp only at hrun
      split at hrun
      · rename_i htype
        cases hrun
        obtain ⟨full, type'⟩ := e
        cases htype
        refine ⟨hs, trivial, .back rfl hget, ?_⟩
        simp [definitions_eq, defines, children]
      · cases hrun

/-- **The walk through a type makes a schema that renders it**, if it does so for records. -/
theorem ofDescriptor_builds {expand : Scope → String → ExpansionM Schema}
    (hexpand : Expands answer expand) (scope : Scope) (d : Descriptor) :
    Builds answer (ofDescriptor expand scope d) id scope.space d fun _ => True := by
  induction d using Descriptor.induction_alternatives with
  | primitive kind =>
      rw [ofDescriptor]
      exact leaf_builds (.primitive kind) rfl rfl rfl
  | logical kind =>
      rw [ofDescriptor]
      exact leaf_builds (.logical kind) rfl rfl rfl
  | fixed type =>
      rw [ofDescriptor]
      exact named_builds rfl (.fixed type) rfl rfl rfl
  | enum type =>
      rw [ofDescriptor]
      exact named_builds rfl (.enum type) rfl rfl rfl
  | array items ih =>
      rw [ofDescriptor]
      exact collection_builds (Heads.array items) (fun _ => rfl) (fun _ => rfl) (fun _ => rfl) rfl ih
  | map values ih =>
      rw [ofDescriptor]
      exact collection_builds (Heads.map values) (fun _ => rfl) (fun _ => rfl) (fun _ => rfl) rfl ih
  | choice d hd ih =>
      rw [ofDescriptor_of_hasAlternatives _ _ hd]
      exact union_builds hd (Descriptor.children_of_hasAlternatives _ hd) ih
  | reference name =>
      rw [ofDescriptor]
      exact referenced_builds hexpand scope name

/-- A field has a schema that renders its written type. -/
theorem ofField_builds {expand : Scope → String → ExpansionM Schema}
    (hexpand : Expands answer expand) (strict : Bool) (scope : Scope) (f : Field) :
    Builds answer (ofField expand strict scope f) (·.type) scope.space f.writtenType
      fun m => m.outline = f.outline := by
  intro s t m hs hrun
  rw [ofField] at hrun
  obtain ⟨_, u, hcheck, hrun⟩ := run_bind_eq_ok.mp hrun
  cases (congrArg Prod.snd hcheck : s = u)
  dsimp only at hrun
  unfold Field.writtenType
  split at hrun
  · rename_i ha
    rw [if_pos ha]
    obtain ⟨n, w, hn, hrun⟩ := run_bind_eq_ok.mp hrun
    cases hrun
    have hmember := fun d (_ : d ∈ writtenAlternatives f.type f.default) =>
      ofDescriptor_builds hexpand scope d
    have hunion := union_builds (d := .union (writtenAlternatives f.type f.default)) rfl
      (by simp [Descriptor.children, Descriptor.alternatives]) hmember
    obtain ⟨ht, -, hrenders, hdefs⟩ := hunion _ _ n hs hn
    exact ⟨ht, rfl, hrenders, hdefs⟩
  · rename_i ha
    rw [if_neg ha]
    obtain ⟨n, w, hn, hrun⟩ := run_bind_eq_ok.mp hrun
    cases hrun
    obtain ⟨ht, -, hrenders, hdefs⟩ := ofDescriptor_builds hexpand scope f.type _ _ n hs hn
    exact ⟨ht, rfl, hrenders, hdefs⟩

/-- **The walk through a record makes a schema that renders it.** -/
theorem expandF_expands (ha : Settled answer) (strict : Bool) (budget : Nat) :
    Expands answer (expandF strict budget) := by
  -- induction on the budget, whatever it is: a walk that runs out of it gives no schema
  induction budget with
  | zero =>
      intro scope name s t n hs hfresh hrun
      cases hrun
  | succ budget ih =>
      intro outer name s t n hs hfresh hrun
      rw [expandF] at hrun
      obtain ⟨record, u, hrecord, hrun⟩ := run_bind_eq_ok.mp hrun
      rw [fetch_run] at hrecord
      obtain ⟨hanswer, rfl⟩ := Prod.mk.inj hrecord
      rw [hs] at hanswer
      have hname := ha.name_eq hanswer
      subst hname
      -- fetching may cache the record, which changes no answer; then the name is defined, so that
      -- the fields meet it as a reference
      have hu : (s.registry.remember record.name).answer = answer :=
        (funext fun other => Registry.answer_remember s.registry record.name other).trans hs
      obtain ⟨_, w, hdefine, hrun⟩ := run_bind_eq_ok.mp hrun
      rw [define_run (s := ⟨s.registry.remember record.name, s.definitions⟩) _ hfresh] at hdefine
      cases hdefine
      obtain ⟨fs, x, hfs, hrun⟩ := run_bind_eq_ok.mp hrun
      cases hrun
      have hfield := fun f (_ : f ∈ record.fields) =>
        ofField_builds ih strict ⟨record.name, record.space.or outer.space⟩ f
      obtain ⟨ht, houtlines, hall, hdefs⟩ := mapM_builds hfield hu hfs
      have houtline := outlines_of_forall₂ houtlines
      refine ⟨ht, .of_all (.record hanswer ?_) ?_ ?_, ?_⟩
      · simp [RecordSchema.outline, Record.outline, houtline]
      · intro e he
        cases he
        exact hfresh
      · rw [Descriptor.children_reference hanswer]
        exact hall
      · simp [definitions_eq _ (.record _), defines, children, inner, hdefs]

/-- **The schema of a record renders it**, after no definitions, and making it changes no answer. -/
theorem ofRecord_renders {r r' : Registry} (ha : Settled r.answer) {strict : Bool} {name : String}
    {n : Schema} (hrun : (ofRecord strict name).run r = (.ok n, r')) :
    r'.answer = r.answer ∧ Renders r.answer [] none (.reference name) n := by
  obtain ⟨t, ht, rfl⟩ : ∃ t,
      (expandF strict (r.knownNames.length + 1) ⟨"", none⟩ name).run ⟨r, []⟩ = (.ok n, t) ∧
        t.registry = r' := by
    have hanswer := congrArg Prod.fst hrun
    have hstate := congrArg Prod.snd hrun
    exact ⟨_, Prod.ext hanswer rfl, hstate⟩
  obtain ⟨hanswer, hrenders, -⟩ :=
    expandF_expands ha strict (r.knownNames.length + 1) ⟨"", none⟩ name ⟨r, []⟩ t n rfl (by simp) ht
  exact ⟨hanswer, hrenders⟩

end

end Schema

end RecordModel
