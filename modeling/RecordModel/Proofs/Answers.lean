/-
**What a registry answers.**

A registry comes about from an empty one by declaring records and by asking for them.  Whatever was
declared and asked for, a name is answered with a record of that name which comes from a
declaration.  Everything that reads a registry depends on its answers alone, and asking changes no
answer, so that a statement about a computation is one about answers that stay as they are.

The records that are reached from a record are those that its answers lead to, from a type of a
field to the records that are referred to within it.

Main definitions:

* `Registry.Reached` — the registries that come about;
* `Settled` — the answers that such a registry gives;
* `Refers`, `Reachable`, `Descriptor.Reaches` — the records that a record or a type leads to.

Main results:

* `Registry.Reached.settled` — a registry that came about gives settled answers;
* `Registry.mem_knownNames_of_answer` — a name with a record is among those that are known.
-/

import Mathlib.Logic.Relation
import RecordModel.Proofs.Types
import RecordModel.Registry

set_option relaxedAutoImplicit false
set_option autoImplicit false

namespace RecordModel

/-! ### Registries that come about -/

/-- The registries that come about from an empty one by declaring records and asking for them,
whether that succeeds or not. -/
inductive Registry.Reached : Registry → Prop
  | new (provider : Option Provider) : Reached ⟨provider, []⟩
  | declare {r : Registry} (d : DeclaredRecord) : Reached r → Reached ((Registry.declare d).run r).2
  | fetch {r : Registry} (name : String) : Reached r → Reached ((Registry.fetch name).run r).2

/-- A record of the name that was settled from a declaration. -/
structure SettledAs (name : String) (record : Record) : Prop where
  name_eq : record.name = name
  declared : ∃ d, Record.ofDeclaration d = .ok record

/-- Every name is answered with a record of that name that was settled from a declaration. -/
def Settled (answer : String → Except Error Record) : Prop :=
  ∀ name record, answer name = .ok record → SettledAs name record

theorem Settled.name_eq {answer : String → Except Error Record} (h : Settled answer)
    {name : String} {record : Record} (hr : answer name = .ok record) : record.name = name :=
  (h name record hr).name_eq

theorem Settled.checked {answer : String → Except Error Record} (h : Settled answer)
    {name : String} {record : Record} (hr : answer name = .ok record) :
    ∀ f ∈ record.fields, f.type.Checked := by
  obtain ⟨d, hd⟩ := (h name record hr).declared
  exact Record.ofDeclaration_checked hd

namespace Registry

/-- A provider answers with a record of the name. -/
theorem settledAs_of_provider {p : Provider} {name : String} {record : Record}
    (h : p.record name = .ok record) : SettledAs name record := by
  unfold Provider.record at h
  obtain ⟨d?, -, h⟩ := exists_of_bind_eq_ok h
  split at h
  · cases h
  · rename_i d
    split at h
    · rename_i hn
      exact ⟨(Record.name_of_ofDeclaration h).trans hn, d, h⟩
    · cases h

/-- The records that are kept are kept under their names. -/
def KeepsSettled (r : Registry) : Prop := ∀ name record, r.get? name = some record →
  SettledAs name record

/-- With records under their names, every answer is settled. -/
theorem KeepsSettled.settled {r : Registry} (h : r.KeepsSettled) : Settled r.answer := by
  intro name record hr
  unfold answer at hr
  split at hr
  · rename_i kept hk
    exact Except.ok.inj hr ▸ h name kept hk
  · split at hr
    · cases hr
    · exact settledAs_of_provider hr

theorem KeepsSettled.store {r : Registry} (h : r.KeepsSettled) {name : String} {record : Record}
    (hr : SettledAs name record) : (r.store name record).KeepsSettled := by
  intro other kept hk
  rw [get?_store] at hk
  by_cases hn : name = other
  · rw [if_pos hn] at hk
    exact Option.some.inj hk ▸ hn ▸ hr
  · rw [if_neg hn] at hk
    exact h other kept hk

theorem KeepsSettled.remember {r : Registry} (h : r.KeepsSettled) (name : String) :
    (r.remember name).KeepsSettled := by
  unfold Registry.remember
  split
  · rename_i record _ ha
    exact h.store (h.settled name record ha)
  · exact h

theorem KeepsSettled.declare {r : Registry} (h : r.KeepsSettled) (d : DeclaredRecord) :
    ((Registry.declare d).run r).2.KeepsSettled := by
  dsimp only [Registry.declare, ExceptT.run, ExceptT.mk]
  split
  · exact h
  · rename_i record hd
    split
    · exact h.store ⟨rfl, d, hd⟩
    · split
      · exact h
      · exact h.store ⟨rfl, d, hd⟩

/-- **A registry that came about gives settled answers.** -/
theorem Reached.settled {r : Registry} (h : r.Reached) : Settled r.answer := by
  suffices hk : r.KeepsSettled from hk.settled
  induction h with
  | new provider =>
      intro name record hr
      cases hr
  | declare d _ ih => exact ih.declare d
  | fetch name _ ih => exact ih.remember name

theorem answer_fetch (r : Registry) (name : String) :
    ((fetch name).run r).2.answer = r.answer :=
  funext fun other => answer_remember r name other

/-- Asking for a name leaves the registry alone, or stores the record that was not kept yet. -/
theorem remember_cases (r : Registry) (name : String) :
    (r.remember name = r ∧ ∀ record, r.answer name = .ok record → r.get? name = some record) ∨
      ∃ record, r.get? name = none ∧ r.answer name = .ok record ∧
        r.remember name = r.store name record := by
  rw [remember]
  cases hget : r.get? name with
  | some kept =>
      refine Or.inl ⟨rfl, fun record hr => ?_⟩
      rw [answer, hget] at hr
      exact congrArg some (Except.ok.inj hr)
  | none =>
      cases hr : r.answer name with
      | error e => exact Or.inl ⟨rfl, fun record h => (by cases h)⟩
      | ok record => exact Or.inr ⟨record, rfl, rfl, rfl⟩

theorem contains_remember {r : Registry} {name : String} {record : Record}
    (h : r.answer name = .ok record) : (r.remember name).contains name = true := by
  rw [contains]
  rcases r.remember_cases name with ⟨hsame, hkept⟩ | ⟨stored, -, -, hstore⟩
  · rw [hsame, hkept record h]
    rfl
  · rw [hstore, get?_store, if_pos rfl]
    rfl

/-- A name with a record is among those that are known. -/
theorem mem_knownNames_of_answer {r : Registry} {name : String} {record : Record}
    (h : r.answer name = .ok record) : name ∈ r.knownNames := by
  unfold answer at h
  split at h
  · rename_i kept hk
    refine List.mem_append_left _ ?_
    by_contra hn
    rw [← Keyed.get?_eq_none_iff] at hn
    rw [get?, hn] at hk
    cases hk
  · cases hp : r.provider with
    | none => simp [hp] at h
    | some p =>
        simp only [hp] at h
        unfold Provider.record at h
        obtain ⟨d?, hd, h⟩ := exists_of_bind_eq_ok h
        cases d? with
        | none => cases h
        | some d =>
            refine List.mem_append_right _ ?_
            simpa [hp] using p.complete name d hd

end Registry

/-! ### Reachable records -/

/-- A field of the record has a reference to the other one within its type. -/
def Refers (answer : String → Except Error Record) (name other : String) : Prop :=
  ∃ record, answer name = .ok record ∧
    ∃ f ∈ record.fields, Descriptor.Within (.reference other) f.type

/-- A chain of references leads from one record to the other. -/
def Reachable (answer : String → Except Error Record) : String → String → Prop :=
  Relation.ReflTransGen (Refers answer)

/-- A reference within the type leads to the record. -/
def Descriptor.Reaches (answer : String → Except Error Record) (d : Descriptor) (name : String) :
    Prop :=
  ∃ first, Descriptor.Within (.reference first) d ∧ Reachable answer first name

namespace Descriptor.Reaches

variable {answer : String → Except Error Record} {d e : Descriptor} {name : String}

theorem of_within (h : e.Reaches answer name) (hw : Within e d) : d.Reaches answer name := by
  obtain ⟨first, hf, hr⟩ := h
  exact ⟨first, hf.trans hw, hr⟩

theorem of_mem_alternatives (h : e.Reaches answer name) (he : e ∈ d.alternatives) :
    d.Reaches answer name := by
  obtain ⟨first, hf, hr⟩ := h
  exact ⟨first, within_of_mem_alternatives rfl he hf, hr⟩

theorem reference_self : (Descriptor.reference name).Reaches answer name :=
  ⟨name, .refl, .refl⟩

theorem of_field {record : Record} {f : Field} {owner : String} (h : f.type.Reaches answer name)
    (hr : answer owner = .ok record) (hf : f ∈ record.fields) :
    (Descriptor.reference owner).Reaches answer name := by
  obtain ⟨first, hw, hn⟩ := h
  exact ⟨owner, .refl, .head ⟨record, hr, f, hf, hw⟩ hn⟩

theorem reachable {owner : String} (h : (Descriptor.reference owner).Reaches answer name) :
    Reachable answer owner name := by
  obtain ⟨first, hw, hn⟩ := h
  cases hw
  exact hn

end Descriptor.Reaches

/-! ### Links -/

/-- A record that may lead to itself: a text, and perhaps another one. -/
def linkDeclaration : DeclaredRecord :=
  ⟨"Link", some "chain", none, [], [
    ⟨"label", .string, none, ⟨none, none, none, none, none, []⟩⟩,
    ⟨"next", .optional .self, none, ⟨none, none, none, none, none, []⟩⟩]⟩

/-- The registry with that record. -/
def linkRegistry : Registry := ((Registry.declare linkDeclaration).run Registry.empty).2

theorem linkRegistry_reached : linkRegistry.Reached := .declare _ (.new none)

/-- The record of the links. -/
def linkRecord : Record :=
  ⟨"Link", some "chain", none, [], [
    ⟨"label", .primitive .string, none, 0, none, []⟩,
    ⟨"next", .optional (.reference "Link"), none, 1, none, []⟩]⟩

theorem linkRegistry_answer : linkRegistry.answer "Link" = .ok linkRecord := by
  with_unfolding_all rfl

/-- A link leads to links alone. -/
theorem eq_of_link_reachable {other : String}
    (h : Reachable linkRegistry.answer "Link" other) : other = "Link" := by
  induction h with
  | refl => rfl
  | tail _ hrefers ih =>
      subst ih
      obtain ⟨record, hr, f, hf, hw⟩ := hrefers
      cases linkRegistry_answer.symm.trans hr
      simp only [linkRecord, List.mem_cons, List.not_mem_nil, or_false] at hf
      rcases hf with rfl | rfl
      · cases hw
      · rcases hw with _ | _ | _ | _ | ⟨⟨⟩⟩
        rfl

end RecordModel
