/-
**What a registry keeps of its history.**

A registry is filled in two ways.  Declaring a record replaces the one that has its name, unless the
two are equal; asking for a name keeps the record of the provider, unless there is one already.  So
the declarations of a name win over the provider, and the last of them over those before it, in
whatever order they come and whichever of them fail.

A history is a list of calls, the last one first.  It asks a provider for finitely many names, so
that the provider may declare names without end: some provider that lists its names stands for it.

Main definitions:

* `RegistryCall` — the calls that may add a record, and what they do to a registry;
* `Registry.after`, `Registry.succeeded` — the registry after some calls, and the calls among them
  that gave a record;
* `Lookup`, `StandsFor` — providers of any kind, and the one that stands for such a provider;
* `lastDeclared?` — the last declaration of a name;
* `Registry.Keeps` — what a registry keeps after calls that succeeded;
* `RegistryCall.Contained` — a call changes nothing but the entry of its name, and that only when it
  succeeds.

Main results:

* `RegistryCall.run_contained` — every call is contained;
* `exists_standsFor` — some provider stands for a lookup;
* `Registry.Keeps.declare`, `Registry.Keeps.fetch` — what is kept through a call;
* `Registry.after_keeps` — **what a registry keeps after any history**.
-/

import RecordModel.Proofs.Answers

set_option relaxedAutoImplicit false
set_option autoImplicit false

namespace RecordModel

/-! ### Calls -/

/-- A call that may add a record to a registry. -/
inductive RegistryCall where
  | declare (d : DeclaredRecord)
  | fetch (name : String)

namespace RegistryCall

/-- The name that a call is about. -/
def name : RegistryCall → String
  | .declare d => d.name
  | .fetch name => name

/-- The record that a call gives, and the registry after it. -/
def run (r : Registry) : RegistryCall → Except Error Record × Registry
  | .declare d => (Prod.fst <$> Registry.declare d).run r
  | .fetch name => (Registry.fetch name).run r

/-- The call changes nothing but the entry of its name, and that only when it gives a record. -/
structure Contained (call : RegistryCall) (r : Registry) : Prop where
  unchanged : ∀ e, (call.run r).1 = .error e → (call.run r).2 = r
  contains : ∀ name, r.contains name = true → (call.run r).2.contains name = true
  others : ∀ name, name ≠ call.name → (call.run r).2.get? name = r.get? name

end RegistryCall

namespace Registry

/-- The registry after some calls. -/
def after (provider : Option Provider) : List RegistryCall → Registry
  | [] => ⟨provider, []⟩
  | call :: earlier => (call.run (after provider earlier)).2

/-- The calls that gave a record. -/
def succeeded (provider : Option Provider) : List RegistryCall → List RegistryCall
  | [] => []
  | call :: earlier =>
      match (call.run (after provider earlier)).1 with
      | .ok _ => call :: succeeded provider earlier
      | .error _ => succeeded provider earlier

end Registry

/-! ### Providers of any kind -/

/-- What declares records: for every name a declaration, or none, or an error. -/
abbrev Lookup := String → Except Error (Option DeclaredRecord)

/-- For every name that the calls ask for the provider declares what the lookup does. -/
def StandsFor (provider : Option Provider) (lookup : Option Lookup) (calls : List RegistryCall) :
    Prop :=
  ∀ name, .fetch name ∈ calls →
    provider.map (fun p => p.declaration name) = lookup.map fun l => l name

/-- The provider that declares what the lookup does for some names, and no others. -/
def Provider.within (lookup : Lookup) (names : List String) : Provider where
  declaration n := if n ∈ names then lookup n else .ok none
  names := names
  complete n d h := by
    by_contra hn
    simp [hn] at h

/-- **Some provider stands for a lookup**: calls ask for finitely many names. -/
theorem exists_standsFor (lookup : Option Lookup) (calls : List RegistryCall) :
    ∃ provider, StandsFor provider lookup calls := by
  refine ⟨lookup.map fun l => Provider.within l (calls.map RegistryCall.name), ?_⟩
  intro name hname
  have hmem : name ∈ calls.map RegistryCall.name := List.mem_map.mpr ⟨.fetch name, hname, rfl⟩
  cases lookup with
  | none => rfl
  | some l => exact congrArg some (if_pos hmem)

theorem StandsFor.of_cons {provider : Option Provider} {lookup : Option Lookup}
    {call : RegistryCall} {earlier : List RegistryCall}
    (h : StandsFor provider lookup (call :: earlier)) : StandsFor provider lookup earlier :=
  fun name hname => h name (List.mem_cons_of_mem _ hname)

/-! ### Kept records -/

/-- The last declaration of a name. -/
def lastDeclared? (name : String) : List RegistryCall → Option DeclaredRecord
  | [] => none
  | .declare d :: earlier => if d.name = name then some d else lastDeclared? name earlier
  | .fetch _ :: earlier => lastDeclared? name earlier

theorem lastDeclared?_declare (name : String) (d : DeclaredRecord) (earlier : List RegistryCall) :
    lastDeclared? name (.declare d :: earlier) =
      if d.name = name then some d else lastDeclared? name earlier := rfl

theorem lastDeclared?_fetch (name other : String) (earlier : List RegistryCall) :
    lastDeclared? name (.fetch other :: earlier) = lastDeclared? name earlier := rfl

/-- The record is the one of the declaration, or is equal to it as records are compared. -/
def Record.Represents (kept : Record) (d : DeclaredRecord) : Prop :=
  ∃ record, Record.ofDeclaration d = .ok record ∧ (kept = record ∨ kept.same record = true)

/-- The record is the one that the lookup declares under the name. -/
def Record.Provided (lookup : Option Lookup) (name : String) (kept : Record) : Prop :=
  ∃ l d, lookup = some l ∧ l name = .ok (some d) ∧ d.name = name ∧
    Record.ofDeclaration d = .ok kept

/-- What a registry keeps after calls of which those in `done` gave a record. -/
structure Registry.Keeps (lookup : Option Lookup) (done : List RegistryCall) (r : Registry) :
    Prop where
  /-- No name has two entries. -/
  nodup : (Keyed.keys r.records).Nodup
  /-- Every record is kept under its own name, and comes from a declaration. -/
  settled : r.KeepsSettled
  /-- A name that was declared has the record of its last declaration. -/
  declared : ∀ name d, lastDeclared? name done = some d →
    ∃ kept, r.get? name = some kept ∧ kept.Represents d
  /-- A name that was never declared has at most the record of the lookup. -/
  provided : ∀ name kept, lastDeclared? name done = none → r.get? name = some kept →
    kept.Provided lookup name
  /-- A name that was never declared has a record exactly when it was asked for with success. -/
  fetched : ∀ name, lastDeclared? name done = none →
    ((r.get? name).isSome = true ↔ .fetch name ∈ done)

/-! ### Single calls -/

section

variable {r : Registry} {call : RegistryCall}

theorem RegistryCall.Contained.of_eq (h : (call.run r).2 = r) : call.Contained r where
  unchanged _ _ := h
  contains _ hname := by rwa [h]
  others _ _ := by rw [h]

theorem RegistryCall.Contained.of_store {a record : Record}
    (h : call.run r = (.ok a, r.store call.name record)) : call.Contained r where
  unchanged e he := by
    rw [h] at he
    cases he
  contains name hname := by
    rw [h, Registry.contains, Registry.get?_store]
    split
    · rfl
    · exact hname
  others name hname := by rw [h, Registry.get?_store, if_neg (Ne.symm hname)]

namespace Registry

/-- What declaring a record does: an error leaves the registry alone; else the record of the
declaration is stored under its name, or an equal one is there already. -/
theorem run_declare (d : DeclaredRecord) (r : Registry) :
    (∃ e, (RegistryCall.declare d).run r = (.error e, r)) ∨
    ∃ record, Record.ofDeclaration d = .ok record ∧
      ((RegistryCall.declare d).run r = (.ok record, r.store d.name record) ∨
        ∃ old, r.get? d.name = some old ∧ old.same record = true ∧
          (RegistryCall.declare d).run r = (.ok old, r)) := by
  rw [RegistryCall.run, Stateful.run_map]
  dsimp only [declare, ExceptT.run, ExceptT.mk]
  cases hd : Record.ofDeclaration d with
  | error e => exact Or.inl ⟨e, rfl⟩
  | ok record =>
      have hname := Record.name_of_ofDeclaration hd
      refine Or.inr ⟨record, rfl, ?_⟩
      simp only [hname]
      cases hold : r.get? d.name with
      | none => exact Or.inl rfl
      | some old =>
          by_cases hsame : old.same record = true
          · exact Or.inr ⟨old, rfl, hsame, by simp [hsame]⟩
          · exact Or.inl (by simp [hsame])

/-- What asking for a name does: an error leaves the registry alone, a record that is kept is given,
and else the one of the provider is given and stored. -/
theorem run_fetch (name : String) (r : Registry) :
    (∃ e, (RegistryCall.fetch name).run r = (.error e, r)) ∨
    (∃ kept, r.get? name = some kept ∧ (RegistryCall.fetch name).run r = (.ok kept, r)) ∨
    ∃ p record, r.provider = some p ∧ p.record name = .ok record ∧ r.get? name = none ∧
      (RegistryCall.fetch name).run r = (.ok record, r.store name record) := by
  rw [RegistryCall.run, fetch_run, remember]
  cases hk : r.get? name with
  | some kept =>
      refine Or.inr (Or.inl ⟨kept, rfl, ?_⟩)
      simp [answer, hk]
  | none =>
      cases ha : r.answer name with
      | error e => exact Or.inl ⟨e, rfl⟩
      | ok record =>
          simp only [answer, hk] at ha
          cases hp : r.provider with
          | none => simp [hp] at ha
          | some p =>
              rw [hp] at ha
              exact Or.inr (Or.inr ⟨p, record, rfl, ha, rfl, rfl⟩)

end Registry

/-- No call changes the provider. -/
theorem RegistryCall.provider_run (call : RegistryCall) (r : Registry) :
    (call.run r).2.provider = r.provider := by
  cases call with
  | declare d =>
      rcases Registry.run_declare d r with ⟨e, hrun⟩ | ⟨record, -, hrun | ⟨old, -, -, hrun⟩⟩
      · rw [hrun]
      · rw [hrun]
        rfl
      · rw [hrun]
  | fetch name =>
      rcases Registry.run_fetch name r with
        ⟨e, hrun⟩ | ⟨kept, -, hrun⟩ | ⟨p, record, -, -, -, hrun⟩
      · rw [hrun]
      · rw [hrun]
      · rw [hrun]
        rfl

/-- **A call changes nothing but the entry of its name**, and nothing at all when it fails. -/
theorem RegistryCall.run_contained (call : RegistryCall) (r : Registry) : call.Contained r := by
  cases call with
  | declare d =>
      rcases Registry.run_declare d r with ⟨e, hrun⟩ | ⟨record, -, hrun | ⟨old, -, -, hrun⟩⟩
      · exact .of_eq (by rw [hrun])
      · exact .of_store hrun
      · exact .of_eq (by rw [hrun])
  | fetch name =>
      rcases Registry.run_fetch name r with ⟨e, hrun⟩ | ⟨kept, -, hrun⟩ | ⟨p, record, -, -, -, hrun⟩
      · exact .of_eq (by rw [hrun])
      · exact .of_eq (by rw [hrun])
      · exact .of_store hrun

/-! ### What is kept through a call -/

namespace Registry.Keeps

variable {lookup : Option Lookup} {done : List RegistryCall}

theorem store {name : String} {record : Record} (h : r.Keeps lookup done)
    (hr : SettledAs name record) :
    (Keyed.keys (r.store name record).records).Nodup ∧ (r.store name record).KeepsSettled :=
  ⟨Keyed.nodup_keys_put name record h.nodup, h.settled.store hr⟩

/-- After a declaration that succeeded the last declaration of its name is that one. -/
theorem declare {d : DeclaredRecord} {kept : Record} {r' : Registry} (h : r.Keeps lookup done)
    (hnodup : (Keyed.keys r'.records).Nodup) (hsettled : r'.KeepsSettled)
    (hkept : r'.get? d.name = some kept) (hd : kept.Represents d)
    (hothers : ∀ name, name ≠ d.name → r'.get? name = r.get? name) :
    r'.Keeps lookup (.declare d :: done) := by
  -- a name whose last declaration is an earlier one, or that has none, is another name
  have hother : ∀ {name : String} {last : Option DeclaredRecord},
      lastDeclared? name (.declare d :: done) = last → (∀ d', last = some d' → d ≠ d') →
      lastDeclared? name done = last ∧ r'.get? name = r.get? name := by
    intro name last hlast hne
    rw [lastDeclared?_declare] at hlast
    by_cases hname : d.name = name
    · rw [if_pos hname] at hlast
      exact absurd rfl (hne d hlast.symm)
    · rw [if_neg hname] at hlast
      exact ⟨hlast, hothers name (Ne.symm hname)⟩
  refine ⟨hnodup, hsettled, ?_, ?_, ?_⟩
  · intro name d' hlast
    rw [lastDeclared?_declare] at hlast
    by_cases hname : d.name = name
    · rw [if_pos hname] at hlast
      cases hlast
      subst hname
      exact ⟨kept, hkept, hd⟩
    · rw [if_neg hname] at hlast
      rw [hothers name (Ne.symm hname)]
      exact h.declared name d' hlast
  · intro name kept' hlast hkept'
    obtain ⟨hlast, hget⟩ := hother hlast (by simp)
    rw [hget] at hkept'
    exact h.provided name kept' hlast hkept'
  · intro name hlast
    obtain ⟨hlast, hget⟩ := hother hlast (by simp)
    rw [hget, h.fetched name hlast]
    simp

/-- After a name was asked for with success it has a record: that of its last declaration, or that
of the lookup. -/
theorem fetch {name : String} {kept : Record} {r' : Registry} (h : r.Keeps lookup done)
    (hnodup : (Keyed.keys r'.records).Nodup) (hsettled : r'.KeepsSettled)
    (hkept : r'.get? name = some kept)
    (hd : r.get? name = some kept ∨ r.get? name = none ∧ kept.Provided lookup name)
    (hothers : ∀ other, other ≠ name → r'.get? other = r.get? other) :
    r'.Keeps lookup (.fetch name :: done) := by
  refine ⟨hnodup, hsettled, ?_, ?_, ?_⟩
  · intro other d hlast
    rw [lastDeclared?_fetch] at hlast
    obtain ⟨kept', hkept', hd'⟩ := h.declared other d hlast
    by_cases hother : other = name
    · subst hother
      rcases hd with hd | ⟨hnone, -⟩
      · cases hd.symm.trans hkept'
        exact ⟨kept, hkept, hd'⟩
      · cases hnone.symm.trans hkept'
    · exact ⟨kept', (hothers other hother).trans hkept', hd'⟩
  · intro other kept' hlast hkept'
    rw [lastDeclared?_fetch] at hlast
    by_cases hother : other = name
    · subst hother
      cases hkept.symm.trans hkept'
      rcases hd with hd | ⟨-, hp⟩
      · exact h.provided other kept hlast hd
      · exact hp
    · rw [hothers other hother] at hkept'
      exact h.provided other kept' hlast hkept'
  · intro other hlast
    rw [lastDeclared?_fetch] at hlast
    by_cases hother : other = name
    · subst hother
      simp [hkept]
    · rw [hothers other hother, h.fetched other hlast]
      simp [hother]

end Registry.Keeps

/-- The answer of a provider that stands for a lookup is the record that the lookup declares under
the name. -/
theorem Record.provided_of_record {provider : Option Provider} {p : Provider}
    {lookup : Option Lookup} {name : String} {record : Record}
    (hl : provider.map (fun p => p.declaration name) = lookup.map fun l => l name)
    (hp : provider = some p) (h : p.record name = .ok record) : record.Provided lookup name := by
  subst hp
  unfold Provider.record at h
  obtain ⟨d?, hd, h⟩ := exists_of_bind_eq_ok h
  cases d? with
  | none => cases h
  | some d =>
      dsimp only at h
      split at h
      · rename_i hname
        cases lookup with
        | none => cases hl
        | some l => exact ⟨l, d, rfl, (Option.some.inj hl).symm.trans hd, hname, h⟩
      · cases h

/-- **A call keeps what the registry keeps**, with the call behind those before it if it gave a
record. -/
theorem Registry.Keeps.run {lookup : Option Lookup} {done : List RegistryCall}
    (h : r.Keeps lookup done) (call : RegistryCall) (hl : StandsFor r.provider lookup [call]) :
    (call.run r).2.Keeps lookup
      (match (call.run r).1 with
        | .ok _ => call :: done
        | .error _ => done) := by
  have hothers := (call.run_contained r).others
  cases call with
  | declare d =>
      rcases run_declare d r with ⟨e, hrun⟩ | ⟨record, hd, hrun | ⟨old, hold, hsame, hrun⟩⟩
      · rw [hrun]
        exact h
      · rw [hrun] at hothers ⊢
        have hsettled : SettledAs d.name record := ⟨Record.name_of_ofDeclaration hd, d, hd⟩
        have hkept : (r.store d.name record).get? d.name = some record := by simp [get?_store]
        obtain ⟨hnodup, hall⟩ := h.store hsettled
        exact h.declare hnodup hall hkept ⟨record, hd, Or.inl rfl⟩ hothers
      · rw [hrun] at hothers ⊢
        exact h.declare h.nodup h.settled hold ⟨record, hd, Or.inr hsame⟩ hothers
  | fetch name =>
      rcases run_fetch name r with
        ⟨e, hrun⟩ | ⟨kept, hkept, hrun⟩ | ⟨p, record, hp, hr, hnone, hrun⟩
      · rw [hrun]
        exact h
      · rw [hrun] at hothers ⊢
        exact h.fetch h.nodup h.settled hkept (Or.inl hkept) hothers
      · rw [hrun] at hothers ⊢
        have hkept : (r.store name record).get? name = some record := by simp [get?_store]
        have hprovided : record.Provided lookup name :=
          Record.provided_of_record (hl name (List.mem_singleton_self _)) hp hr
        obtain ⟨hnodup, hall⟩ := h.store (settledAs_of_provider hr)
        exact h.fetch hnodup hall hkept (Or.inr ⟨hnone, hprovided⟩) hothers

end

/-! ### Histories -/

theorem Registry.after_provider (provider : Option Provider) (calls : List RegistryCall) :
    (after provider calls).provider = provider := by
  induction calls with
  | nil => rfl
  | cons call earlier ih => exact (call.provider_run _).trans ih

/-- **What a registry keeps after any history**, whatever kind of provider it has: every record
under its own name, for a declared name that of its last declaration, for any other name that of the
provider as soon as it was asked for.  A further call changes nothing but the entry of its name, and
nothing at all when it fails. -/
theorem Registry.after_keeps (lookup : Option Lookup) (calls : List RegistryCall) :
    (∃ provider, StandsFor provider lookup calls) ∧
      ∀ provider, StandsFor provider lookup calls →
        (after provider calls).Keeps lookup (succeeded provider calls) ∧
          ∀ call : RegistryCall, call.Contained (after provider calls) := by
  refine ⟨exists_standsFor lookup calls, fun provider hl => ⟨?_, fun call => call.run_contained _⟩⟩
  induction calls with
  | nil =>
      have hnone : ∀ name, (after provider []).get? name = none := fun _ => rfl
      refine ⟨List.nodup_nil, ?_, ?_, ?_, ?_⟩
      · intro name kept hkept
        cases (hnone name).symm.trans hkept
      · intro name d hlast
        cases hlast
      · intro name kept _ hkept
        cases (hnone name).symm.trans hkept
      · intro name _
        simp [hnone, succeeded]
  | cons call earlier ih =>
      have hcall : StandsFor (after provider earlier).provider lookup [call] := by
        rw [after_provider]
        intro name hname
        exact hl name (List.mem_singleton.mp hname ▸ List.mem_cons_self ..)
      have hrun := (ih hl.of_cons).run call hcall
      rw [after, succeeded]
      cases hanswer : (call.run (after provider earlier)).1 with
      | error e =>
          rw [hanswer] at hrun
          exact hrun
      | ok record =>
          rw [hanswer] at hrun
          exact hrun

end RecordModel
