/-
**Registries without an end.**

A provider lists the names that it has declarations for, so that a computation on a registry can be
given a bound.  What declares records need not have such a list: it may have a declaration for every
name there is.  A registry that asks it is open.

A call is about one name, and asks for no other.  So an open registry does what a registry does
whose provider knows that name alone; and as long as only some names are asked for, a registry whose
provider has their declarations behaves like the open one.

Main definitions:

* `OpenRegistry` — a registry that asks a lookup of any kind;
* `OpenRegistry.within` — the registry whose provider has the declarations of some names;
* `OpenRegistry.answer`, `OpenRegistry.after` — the record that a name stands for, and the registry
  after a call;
* `Registry.Covers` — a registry that behaves like an open one as far as some names go;
* `Registry.opened` — a registry as an open one.

Main results:

* `RegistryCall.run_congr` — a call depends on the records and on the declaration of its name;
* `Registry.Covers.run` — **a call for one of the names keeps two registries alike**;
* `OpenRegistry.Reached.settled` — an open registry that came about gives settled answers.
-/

import RecordModel.Proofs.RegistryHistory

set_option relaxedAutoImplicit false
set_option autoImplicit false

namespace RecordModel

/-! ### Calls on two registries -/

theorem Provider.record_congr {p q : Provider} {name : String}
    (h : p.declaration name = q.declaration name) : p.record name = q.record name := by
  rw [record, record, h]

namespace Registry

variable {r q : Registry} {name : String}

/-- What the provider declares under a name, if there is a provider. -/
def declared? (r : Registry) (name : String) : Option (Except Error (Option DeclaredRecord)) :=
  r.provider.map fun p => p.declaration name

theorem get?_congr (h : r.records = q.records) : r.get? name = q.get? name := by
  rw [get?, get?, h]

/-- The answer to a name comes from the records and from the declaration of the name. -/
theorem answer_congr (hrecords : r.records = q.records)
    (hdeclared : r.declared? name = q.declared? name) : r.answer name = q.answer name := by
  rw [answer, answer, get?_congr hrecords]
  cases q.get? name with
  | some record => rfl
  | none =>
      rw [declared?, declared?] at hdeclared
      cases hr : r.provider with
      | none =>
          cases hq : q.provider with
          | none => rfl
          | some p => simp [hr, hq] at hdeclared
      | some p =>
          cases hq : q.provider with
          | none => simp [hr, hq] at hdeclared
          | some p' =>
              rw [hr, hq] at hdeclared
              exact Provider.record_congr (Option.some.inj hdeclared)

theorem records_store_congr (name : String) (record : Record) (h : r.records = q.records) :
    (r.store name record).records = (q.store name record).records := by
  rw [store, store, h]

end Registry

/-- **A call comes to the same** on registries with the same records and the same declaration of its
name. -/
theorem RegistryCall.run_congr {r q : Registry} (call : RegistryCall)
    (hrecords : r.records = q.records)
    (hdeclared : r.declared? call.name = q.declared? call.name) :
    (call.run r).1 = (call.run q).1 ∧ (call.run r).2.records = (call.run q).2.records := by
  cases call with
  | declare d =>
      simp only [run, Stateful.run_map]
      dsimp only [Registry.declare, ExceptT.run, ExceptT.mk]
      cases Record.ofDeclaration d with
      | error e => exact ⟨rfl, hrecords⟩
      | ok record =>
          have hstore := Registry.records_store_congr record.name record hrecords
          dsimp only
          rw [Registry.get?_congr hrecords]
          cases q.get? record.name with
          | none => exact ⟨rfl, hstore⟩
          | some old =>
              dsimp only
              cases old.same record with
              | true => exact ⟨rfl, hrecords⟩
              | false => exact ⟨rfl, hstore⟩
  | fetch name =>
      have hanswer : r.answer name = q.answer name := Registry.answer_congr hrecords hdeclared
      refine ⟨hanswer, ?_⟩
      change (r.remember name).records = (q.remember name).records
      rw [Registry.remember, Registry.remember, hanswer, Registry.get?_congr hrecords]
      cases q.get? name with
      | some kept => exact hrecords
      | none =>
          cases q.answer name with
          | error e => exact hrecords
          | ok record => exact Registry.records_store_congr name record hrecords

/-! ### Open registries -/

/-- Records by their names, and what is asked for further declarations; it may declare names without
end. -/
structure OpenRegistry where
  lookup : Option Lookup
  records : List (String × Record)

namespace OpenRegistry

/-- The registry that has the same records, and a provider with the declarations of some names. -/
def within (o : OpenRegistry) (names : List String) : Registry :=
  ⟨o.lookup.map fun l => .within l names, o.records⟩

/-- The record that a name stands for: that of the registry whose provider has its declaration. -/
def answer (o : OpenRegistry) (name : String) : Except Error Record := (o.within [name]).answer name

/-- The registry after a call, which asks for no other name than its own. -/
def after (o : OpenRegistry) (call : RegistryCall) : OpenRegistry :=
  { o with records := (call.run (o.within [call.name])).2.records }

/-- The open registries that come about from empty ones by calls, whether these succeed or not. -/
inductive Reached : OpenRegistry → Prop
  | new (lookup : Option Lookup) : Reached ⟨lookup, []⟩
  | after {o : OpenRegistry} (call : RegistryCall) : Reached o → Reached (o.after call)

end OpenRegistry

/-- A registry as an open one. -/
def Registry.opened (r : Registry) : OpenRegistry :=
  ⟨r.provider.map Provider.declaration, r.records⟩

/-- The registry behaves like the open one as far as some names go: it has the same records, and its
provider declares under these names what the lookup does. -/
structure Registry.Covers (names : String → Prop) (r : Registry) (o : OpenRegistry) : Prop where
  records : r.records = o.records
  declared : ∀ name, names name → r.declared? name = o.lookup.map fun l => l name

namespace OpenRegistry

theorem declared?_within (o : OpenRegistry) {names : List String} {name : String}
    (h : name ∈ names) : (o.within names).declared? name = o.lookup.map fun l => l name := by
  rw [Registry.declared?, within]
  cases o.lookup with
  | none => rfl
  | some l => exact congrArg some (if_pos h)

theorem within_covers (o : OpenRegistry) (names : List String) :
    (o.within names).Covers (· ∈ names) o where
  records := rfl
  declared _ h := o.declared?_within h

end OpenRegistry

namespace Registry

theorem opened_covers (r : Registry) : r.Covers (fun _ => True) r.opened where
  records := rfl
  declared name _ := by
    rw [declared?, opened]
    cases r.provider <;> rfl

namespace Covers

variable {names : String → Prop} {r : Registry} {o : OpenRegistry}

theorem mono {names' : String → Prop} (h : r.Covers names o) (hn : ∀ n, names' n → names n) :
    r.Covers names' o where
  records := h.records
  declared name hname := h.declared name (hn name hname)

/-- A registry behaves like itself alone as far as all names go. -/
theorem eq_opened (h : r.Covers (fun _ => True) o) : o = r.opened := by
  obtain ⟨lookup, records⟩ := o
  obtain ⟨provider, kept⟩ := r
  obtain rfl : kept = records := h.records
  have hdeclared (name : String) :
      provider.map (fun p => p.declaration name) = lookup.map fun l => l name :=
    h.declared name trivial
  rw [opened]
  cases provider with
  | none =>
      cases lookup with
      | none => rfl
      | some l => exact absurd (hdeclared "") (by simp)
  | some p =>
      cases lookup with
      | none => exact absurd (hdeclared "") (by simp)
      | some l =>
          have hl : p.declaration = l := funext fun name => Option.some.inj (hdeclared name)
          simp [hl]

/-- **A call for one of the names** comes to the same, and the registries stay alike. -/
theorem run (h : r.Covers names o) (call : RegistryCall) (hn : names call.name) :
    (call.run r).1 = (call.run (o.within [call.name])).1 ∧
      (call.run r).2.Covers names (o.after call) := by
  have hdeclared : r.declared? call.name = (o.within [call.name]).declared? call.name :=
    (h.declared _ hn).trans (o.declared?_within (List.mem_singleton_self _)).symm
  obtain ⟨hanswer, hrecords⟩ := call.run_congr (q := o.within [call.name]) h.records hdeclared
  refine ⟨hanswer, hrecords, fun name hname => ?_⟩
  rw [declared?, call.provider_run]
  exact h.declared name hname

theorem answer_eq (h : r.Covers names o) {name : String} (hn : names name) :
    r.answer name = o.answer name :=
  (h.run (.fetch name) hn).1

end Covers

end Registry

/-! ### Open registries that come about -/

/-- A call keeps every record under its own name. -/
theorem Registry.KeepsSettled.run {r : Registry} (h : r.KeepsSettled) (call : RegistryCall) :
    (call.run r).2.KeepsSettled := by
  cases call with
  | declare d =>
      rcases Registry.run_declare d r with ⟨e, hrun⟩ | ⟨record, hd, hrun | ⟨old, -, -, hrun⟩⟩
      · rwa [hrun]
      · rw [hrun]
        exact h.store ⟨Record.name_of_ofDeclaration hd, d, hd⟩
      · rwa [hrun]
  | fetch name => exact h.remember name

namespace OpenRegistry

variable {o : OpenRegistry}

theorem Reached.keepsSettled (h : o.Reached) (names : List String) :
    (o.within names).KeepsSettled := by
  induction h generalizing names with
  | new lookup =>
      intro name record hr
      cases hr
  | after call _ ih => exact (ih [call.name]).run call

/-- **An open registry that came about gives settled answers.** -/
theorem Reached.settled (h : o.Reached) : Settled o.answer :=
  fun name => (h.keepsSettled [name]).settled name

end OpenRegistry

/-- A registry that came about is an open one that did. -/
theorem Registry.Reached.opened {r : Registry} (h : r.Reached) : r.opened.Reached := by
  have hcall {r : Registry} (call : RegistryCall) (ih : r.opened.Reached) :
      (call.run r).2.opened.Reached := by
    rw [← (r.opened_covers.run call trivial).2.eq_opened]
    exact ih.after call
  induction h with
  | new provider => exact .new _
  | @declare r d _ ih =>
      have hdeclare : ((Registry.declare d).run r).2 = ((RegistryCall.declare d).run r).2 := by
        rw [RegistryCall.run, Stateful.run_map]
        rcases (Registry.declare d).run r with ⟨_ | a, t⟩ <;> rfl
      rw [hdeclare]
      exact hcall (.declare d) ih
  | fetch name _ ih => exact hcall (.fetch name) ih

end RecordModel
