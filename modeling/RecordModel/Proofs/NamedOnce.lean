/-
**Named types stand in a schema once.**

In the schema of a record every named type that its types lead to is defined at exactly one place,
and everywhere else there is a reference to that place by the full name that is defined there.  The
records that are defined are those that can be reached, with the fields in their order.

Main definitions:

* `Schema.NamedOnce` — the statement about a schema.

Main results:

* `Renders.nodup` — a rendering defines no name twice;
* `Renders.exists_definition` — a rendering defines every named type within the type, if it was not
  defined before;
* `Descriptor.Reaches.of_at?` — what a part of a type leads to is what the type leads to;
* `Schema.ofRecord_namedOnce` — **the schema of a record defines what is reached, once each**.
-/

import RecordModel.Proofs.Renders

set_option relaxedAutoImplicit false
set_option autoImplicit false

namespace RecordModel

/-! ### Distinct names -/

namespace Schema

variable {space : Option String} {n m : Schema} {i : Nat}

theorem definedBefore_zero : n.definedBefore space 0 = (n.defines space).toList := by
  simp [definedBefore]

theorem definedBefore_succ (hi : n.children[i]? = some m) :
    n.definedBefore space (i + 1) = n.definedBefore space i ++ m.definitions (n.inner space) := by
  rw [definedBefore, definedBefore, List.take_add_one, hi]
  simp

theorem definedBefore_length :
    n.definedBefore space n.children.length = n.definitions space := by
  rw [definedBefore, List.take_length, definitions_eq]

end Schema

section

variable {answer : String → Except Error Record} {before : List (String × NamedDefinition)}
  {space : Option String} {d : Descriptor} {n : Schema}

/-- **A rendering defines no name twice**, and none that was defined before. -/
theorem Renders.nodup (h : Renders answer before space d n)
    (hb : (Keyed.keys before).Nodup) : (Keyed.keys (before ++ n.definitions space)).Nodup := by
  induction h with
  | back _ _ => simpa [Schema.definitions_eq, Schema.defines, Schema.children] using hb
  | @full before space d n hheads hfresh hlen _ ih =>
      -- induction on the number of schemas below that have been gone through
      have hprefix : ∀ i ≤ n.children.length,
          (Keyed.keys (before ++ n.definedBefore space i)).Nodup := by
        intro i
        induction i with
        | zero =>
            intro _
            rw [Schema.definedBefore_zero]
            cases hd : n.defines space with
            | none => simpa using hb
            | some e =>
                have he := hfresh e hd
                simp only [Keyed.keys, Option.toList_some, List.map_append, List.map_cons,
                  List.map_nil] at hb he ⊢
                rw [← List.concat_eq_append]
                exact hb.concat he
        | succ i ihi =>
            intro hi
            have hm := List.getElem?_eq_getElem (show i < n.children.length by omega)
            have he := List.getElem?_eq_getElem (show i < (d.children answer).length by omega)
            rw [Schema.definedBefore_succ hm, ← List.append_assoc]
            exact ih i _ _ hm he (ihi (by omega))
      have hall := hprefix _ (Nat.le_refl _)
      rwa [Schema.definedBefore_length] at hall

/-! ### Every named type is defined -/

/-- There is nothing else within a named type. -/
theorem Descriptor.Within.eq_of_named {d e : Descriptor} (hw : Descriptor.Within e d)
    {x : String × NamedType} (hd : d.named? = some x) : e = d := by
  cases hw with
  | refl => rfl
  | _ => cases hd

theorem Descriptor.isNamed_of_named? {e : Descriptor} {b : String} {type : NamedType}
    (h : e.named? = some (b, type)) : e.isNamed = true := by
  cases e <;> simp_all [named?, isNamed]

/-- The written alternatives are the alternatives in another order. -/
theorem mem_writtenAlternatives {d m : Descriptor} {default : Option Value} :
    m ∈ writtenAlternatives d default ↔ m ∈ d.alternatives := by
  unfold writtenAlternatives
  split
  · rename_i first rest halt
    rw [halt]
    split
    · rw [List.mem_append, List.mem_singleton, List.mem_cons, or_comm]
    · rfl
  · rfl

theorem Field.within_writtenType {f : Field} {e : Descriptor} (he : e.isNamed = true)
    (hw : Descriptor.Within e f.type) : Descriptor.Within e f.writtenType := by
  unfold Field.writtenType
  split
  · obtain ⟨m, hm, hw⟩ := Descriptor.exists_alternative_within he hw
    exact .member (mem_writtenAlternatives.mpr hm) hw
  · exact hw

theorem Heads.name_eq (ha : Settled answer) {name : String} {r : RecordSchema Schema}
    (h : Heads answer (.reference name) (.record r)) : r.name = name := by
  cases h with
  | record hr ho => exact (congrArg RecordSchema.name ho).trans (ha.name_eq hr)

/-- **A rendering defines every named type within the type**, if it was not defined before. -/
theorem Renders.exists_definition (ha : Settled answer) (h : Renders answer before space d n)
    {e : Descriptor} (hw : Descriptor.Within e d) {b : String} {type : NamedType}
    (he : e.named? = some (b, type)) :
    ∃ full, (b, ⟨full, type⟩) ∈ before ++ n.definitions space := by
  -- induction on the rendering: the named type is the type itself or is within one of its parts
  induction h with
  | @back _ _ d _ full _ hd hget =>
      cases hw.eq_of_named hd
      cases hd.symm.trans he
      exact ⟨full, List.mem_append_left _ (Keyed.mem_of_get? hget)⟩
  | @full before space d n hheads hfresh hlen _ ih =>
      have hpart : ∀ e' ∈ d.children answer, Descriptor.Within e e' →
          ∃ full, (b, ⟨full, type⟩) ∈ before ++ n.definitions space := by
        intro e' he' hw'
        obtain ⟨i, hi⟩ := List.mem_iff_getElem?.mp he'
        obtain ⟨hlt, -⟩ := List.getElem?_eq_some_iff.mp hi
        have hm := List.getElem?_eq_getElem (show i < n.children.length by omega)
        obtain ⟨full, hfull⟩ := ih i _ e' hm hi hw'
        refine ⟨full, ?_⟩
        rw [List.append_assoc, List.mem_append] at hfull
        rw [List.mem_append]
        exact hfull.imp_right fun h => Schema.definedBefore_subset hm h
      have hown : ∀ x, n.defines space = some x → x ∈ before ++ n.definitions space := by
        intro x hx
        rw [Schema.definitions_eq, hx]
        simp
      cases hheads with
      | primitive kind =>
          cases hw
          cases he
      | logical kind =>
          cases hw
          cases he
      | fixed t =>
          cases hw
          cases he
          exact ⟨_, hown _ rfl⟩
      | enum t =>
          cases hw
          cases he
          exact ⟨_, hown _ rfl⟩
      | array items m =>
          cases hw with
          | refl => cases he
          | items hw => exact hpart items (List.mem_singleton_self _) hw
      | map values m =>
          cases hw with
          | refl => cases he
          | values hw => exact hpart values (List.mem_singleton_self _) hw
      | union members hd =>
          obtain ⟨m, hm, hw⟩ :=
            Descriptor.exists_alternative_within (Descriptor.isNamed_of_named? he) hw
          refine hpart m ?_ hw
          rwa [Descriptor.children_of_hasAlternatives _ hd]
      | record hr ho =>
          cases hw
          cases he
          have hname := Heads.name_eq ha (.record hr ho)
          exact ⟨_, hown _ (by rw [Schema.defines, hname])⟩

/-- A record in full comes with every named type within the types of its fields. -/
theorem Renders.exists_definition_of_field (ha : Settled answer) {name : String}
    {r : RecordSchema Schema} (h : Renders answer before space (.reference name) (.record r))
    {record : Record} (hr : answer name = .ok record) {f : Field} (hf : f ∈ record.fields)
    {e : Descriptor} (hw : Descriptor.Within e f.type) {b : String} {type : NamedType}
    (he : e.named? = some (b, type)) :
    ∃ full, (b, ⟨full, type⟩) ∈ before ++ (Schema.record r).definitions space := by
  have hmem : f.writtenType ∈ (Descriptor.reference name).children answer := by
    rw [Descriptor.children_reference hr]
    exact List.mem_map_of_mem hf
  obtain ⟨i, hi⟩ := List.mem_iff_getElem?.mp hmem
  obtain ⟨m, before', -, hrenders, hsub⟩ := h.part h.heads_record hi
  have hwritten := Field.within_writtenType (Descriptor.isNamed_of_named? he) hw
  obtain ⟨full, hfull⟩ := hrenders.exists_definition ha hwritten he
  exact ⟨full, hsub hfull⟩

/-! ### Nothing else is defined -/

namespace Descriptor.Reaches

/-- What the written type of a field leads to is what the type leads to. -/
theorem of_writtenType {f : Field} {name : String} (h : f.writtenType.Reaches answer name) :
    f.type.Reaches answer name := by
  unfold Field.writtenType at h
  split at h
  · obtain ⟨first, hw, hr⟩ := h
    cases hw with
    | member hm hw =>
        exact of_mem_alternatives ⟨first, hw, hr⟩ (mem_writtenAlternatives.mp hm)
  · exact h

/-- What a part of a type leads to is what the type leads to. -/
theorem of_mem_children {d e : Descriptor} {name : String} (h : e.Reaches answer name)
    (he : e ∈ d.children answer) : d.Reaches answer name := by
  cases d with
  | array items =>
      cases List.mem_singleton.mp he
      exact h.of_within (.items .refl)
  | map values =>
      cases List.mem_singleton.mp he
      exact h.of_within (.values .refl)
  | union members => exact h.of_mem_alternatives he
  | optional inner => exact h.of_mem_alternatives he
  | reference owner =>
      cases hr : answer owner with
      | error x => simp [children, hr] at he
      | ok record =>
          rw [children_reference hr] at he
          obtain ⟨f, hf, rfl⟩ := List.mem_map.mp he
          exact h.of_writtenType.of_field hr hf
  | _ => simp [children] at he

/-- **What a type at the end of a path leads to is what the type leads to.** -/
theorem of_at? {d e : Descriptor} {path : List Nat} {name : String}
    (he : d.at? answer path = some e) (h : e.Reaches answer name) : d.Reaches answer name := by
  induction path generalizing d with
  | nil =>
      cases he
      exact h
  | cons i path ih =>
      rw [at?_cons] at he
      obtain ⟨part, hi, he⟩ := Option.bind_eq_some_iff.mp he
      exact (ih he).of_mem_children (List.mem_of_getElem? hi)

end Descriptor.Reaches

end

/-! ### The schema of a record -/

namespace Schema

/-- The record in full at a path. -/
def recordAt? (T : Schema) (path : List Nat) : Option (RecordSchema Schema) :=
  (T.place? none path).bind fun p => p.2.toRecord?

/-- In the schema of the record with the name, under the answers, named types stand once. -/
structure NamedOnce (answer : String → Except Error Record) (name : String) (T : Schema) :
    Prop where
  /-- A record that can be reached stands in full at exactly one path. -/
  record_once : ∀ other, Reachable answer name other →
    ∃! path, ∃ r, T.recordAt? path = some r ∧ r.name = other
  /-- A record in full can be reached, and is the registered one with its fields in order. -/
  record_eq : ∀ path r, T.recordAt? path = some r → Reachable answer name r.name ∧
    ∃ record, answer r.name = .ok record ∧ r.outline = record.outline
  /-- A named type within a field of a record that can be reached is defined at exactly one path. -/
  type_once : ∀ other record, Reachable answer name other → answer other = .ok record →
    ∀ f ∈ record.fields, ∀ e, Descriptor.Within e f.type → ∀ b type, e.named? = some (b, type) →
      ∃! path, ∃ full, T.definesAt? none path = some (b, ⟨full, type⟩)
  /-- No bare name is defined at two paths. -/
  name_once : ∀ p q d e, T.definesAt? none p = some d → T.definesAt? none q = some e →
    d.1 = e.1 → p = q
  /-- A reference stands for a named type, and states the full name that is defined for it at a path
  before. -/
  reference_eq : ∀ path space full, T.place? none path = some (space, .reference full) →
    ∃ d b type, (Descriptor.reference name).at? answer path = some d ∧
      d.named? = some (b, type) ∧
      ∃ q, q < path ∧ T.definesAt? none q = some (b, ⟨full, type⟩)

theorem recordAt?_eq_some_iff {T : Schema} {path : List Nat} {r : RecordSchema Schema} :
    T.recordAt? path = some r ↔ ∃ space, T.place? none path = some (space, .record r) := by
  rw [recordAt?, Option.bind_eq_some_iff]
  constructor
  · rintro ⟨⟨space, n⟩, hplace, hr⟩
    cases n <;> cases hr
    exact ⟨space, hplace⟩
  · rintro ⟨space, hplace⟩
    exact ⟨_, hplace, rfl⟩

theorem exists_recordAt? {T : Schema} {path : List Nat} {b full : String}
    (h : T.definesAt? none path = some (b, ⟨full, .record⟩)) :
    ∃ r, T.recordAt? path = some r ∧ r.name = b := by
  obtain ⟨⟨space, n⟩, hplace, hd⟩ := Option.bind_eq_some_iff.mp h
  cases n <;> cases hd
  exact ⟨_, recordAt?_eq_some_iff.mpr ⟨space, hplace⟩, rfl⟩

theorem definesAt?_of_recordAt? {T : Schema} {path : List Nat} {r : RecordSchema Schema}
    (h : T.recordAt? path = some r) :
    ∃ full, T.definesAt? none path = some (r.name, ⟨full, .record⟩) := by
  obtain ⟨space, hplace⟩ := recordAt?_eq_some_iff.mp h
  exact ⟨_, by rw [definesAt?, hplace]; rfl⟩

section

variable {answer : String → Except Error Record} {name : String} {T : Schema}

/-- A record in full stands where the type refers to it. -/
theorem renders_of_recordAt? (ha : Settled answer)
    (h : Renders answer [] none (.reference name) T) {path : List Nat} {r : RecordSchema Schema}
    (hr : T.recordAt? path = some r) :
    ∃ space before, (Descriptor.reference name).at? answer path = some (.reference r.name) ∧
      Renders answer before space (.reference r.name) (.record r) ∧
      before ++ (Schema.record r).definitions space ⊆ T.definitions none := by
  obtain ⟨space, hplace⟩ := recordAt?_eq_some_iff.mp hr
  obtain ⟨before, d, hd, hrenders, hsub, -⟩ := h.at_place hplace
  cases hrenders with
  | full hheads hfresh hlen hparts =>
      cases hheads with
      | record hrecord ho =>
          have hname := Heads.name_eq ha (.record hrecord ho)
          subst hname
          exact ⟨space, before, hd, .full (.record hrecord ho) hfresh hlen hparts, hsub⟩

/-- Every record that can be reached is defined. -/
theorem exists_definition_of_reachable (ha : Settled answer)
    (h : Renders answer [] none (.reference name) T) {other : String}
    (hreach : Reachable answer name other) :
    ∃ full, (other, ⟨full, .record⟩) ∈ T.definitions none := by
  -- the record that refers to it stands in full somewhere, and comes with what its fields name
  induction hreach with
  | refl => exact h.exists_definition ha .refl rfl
  | tail _ hrefers ih =>
      obtain ⟨record, hrecord, f, hf, hw⟩ := hrefers
      obtain ⟨full, hmem⟩ := ih
      obtain ⟨path, hpath⟩ := (mem_definitions_iff _ _ _).mp hmem
      obtain ⟨r, hr, rfl⟩ := exists_recordAt? hpath
      obtain ⟨space, before, -, hrenders, hsub⟩ := renders_of_recordAt? ha h hr
      obtain ⟨full, hfull⟩ := hrenders.exists_definition_of_field ha hrecord hf hw rfl
      exact ⟨full, hsub hfull⟩

/-- **In a rendering of a record named types stand once.** -/
theorem namedOnce_of_renders (ha : Settled answer)
    (h : Renders answer [] none (.reference name) T) : NamedOnce answer name T := by
  have hnodup : (Keyed.keys (T.definitions none)).Nodup := h.nodup List.nodup_nil
  have hunique : ∀ p q d e, T.definesAt? none p = some d → T.definesAt? none q = some e →
      d.1 = e.1 → p = q := fun p q d e hp hq hde => path_unique hnodup hp hq hde
  refine ⟨?_, ?_, ?_, hunique, ?_⟩
  · intro other hreach
    obtain ⟨full, hmem⟩ := exists_definition_of_reachable ha h hreach
    obtain ⟨path, hpath⟩ := (mem_definitions_iff _ _ _).mp hmem
    obtain ⟨r, hr, rfl⟩ := exists_recordAt? hpath
    refine ⟨path, ⟨r, hr, rfl⟩, ?_⟩
    rintro q ⟨r', hr', hname⟩
    obtain ⟨full', hq⟩ := definesAt?_of_recordAt? hr'
    exact hunique _ _ _ _ hq hpath hname
  · intro path r hr
    obtain ⟨space, before, hat, hrenders, -⟩ := renders_of_recordAt? ha h hr
    refine ⟨(Descriptor.Reaches.of_at? hat .reference_self).reachable, ?_⟩
    cases hrenders with
    | full hheads _ _ _ =>
        cases hheads with
        | record hrecord ho => exact ⟨_, hrecord, ho⟩
  · intro other record hreach hrecord f hf e hw b type he
    obtain ⟨full, hmem⟩ := exists_definition_of_reachable ha h hreach
    obtain ⟨path, hpath⟩ := (mem_definitions_iff _ _ _).mp hmem
    obtain ⟨r, hr, rfl⟩ := exists_recordAt? hpath
    obtain ⟨space, before, -, hrenders, hsub⟩ := renders_of_recordAt? ha h hr
    obtain ⟨full', hfull⟩ := hrenders.exists_definition_of_field ha hrecord hf hw he
    obtain ⟨q, hq⟩ := (mem_definitions_iff _ _ _).mp (hsub hfull)
    refine ⟨q, ⟨full', hq⟩, ?_⟩
    rintro q' ⟨full'', hq'⟩
    exact hunique _ _ _ _ hq' hq rfl
  · intro path space full hplace
    obtain ⟨before, d, hat, hrenders, -, hbefore⟩ := h.at_place hplace
    cases hrenders with
    | @back _ _ _ b _ type hd hget =>
        refine ⟨d, b, type, hat, hd, ?_⟩
        rcases hbefore _ (Keyed.mem_of_get? hget) with hnil | hq
        · cases hnil
        · exact hq
    | full hheads _ _ _ => cases hheads

end

/-- **The schema of a record defines what is reached, once each**: records and other named types
stand in full at one place, and each reference states the full name of a place before it. -/
theorem ofRecord_namedOnce {r r' : Registry} (hr : r.Reached) {strict : Bool} {name : String}
    {T : Schema} (hrun : (ofRecord strict name).run r = (.ok T, r')) :
    NamedOnce r.answer name T :=
  namedOnce_of_renders hr.settled (ofRecord_renders hr.settled hrun).2

/-- The schema of the links: the next one is a reference. -/
def ofLinks : Schema :=
  .record ⟨"Link", some "chain", none, [], [
    ⟨"label", .primitive .string, none, none, []⟩,
    ⟨"next", .union [.primitive .null, .reference "chain.Link"], none, none, []⟩]⟩

theorem ofLinks_namedOnce :
    linkRegistry.Reached ∧
      (∃ r', (ofRecord true "Link").run linkRegistry = (.ok ofLinks, r')) ∧
      NamedOnce linkRegistry.answer "Link" ofLinks := by
  have hrun : ∃ r', (ofRecord true "Link").run linkRegistry = (.ok ofLinks, r') :=
    ⟨_, by with_unfolding_all rfl⟩
  obtain ⟨r', hr'⟩ := hrun
  exact ⟨linkRegistry_reached, ⟨r', hr'⟩, ofRecord_namedOnce linkRegistry_reached hr'⟩

end Schema

end RecordModel
