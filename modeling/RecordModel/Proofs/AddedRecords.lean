/-
**What schemas and instances add to a registry.**

Making the schema of a record and generating an instance of it ask the registry for records, each of
which is kept from then on.  They ask for nothing but records that can be reached from the one that
they are made for, wherever they end, so that what is kept afterwards is what was kept before and
some of these records.  A schema shows all of them in full, and is made only of records that were
asked for; making it again therefore asks for nothing that is not kept.

Main definitions:

* `Registry.Adds` — one registry keeps what another one does, and records of some names besides;
* `Schema.Registered` — the records that a walk has defined are kept.

Main results:

* `Schema.ofRecord_adds`, `drawInstance_adds` — **a run adds some of the records that can be
  reached**;
* `Schema.contains_of_run` — a schema leaves all of them behind;
* `adds_reachable_records` — what is kept after a schema, after a failure and after an instance.
-/

import RecordModel.Proofs.Buildable
import RecordModel.Proofs.Drawn

set_option relaxedAutoImplicit false
set_option autoImplicit false

namespace RecordModel

open Stateful

/-! ### What is added -/

/-- The other registry keeps what this one does.  What it keeps besides are records of some names,
as this one answers them. -/
structure Registry.Adds (names : String → Prop) (r q : Registry) : Prop where
  provider : q.provider = r.provider
  kept : ∀ n record, r.get? n = some record → q.get? n = some record
  added : ∀ n record, q.get? n = some record →
    r.get? n = some record ∨ names n ∧ r.answer n = .ok record

namespace Registry

theorem remember_of_contains {r : Registry} {name : String} (h : r.contains name = true) :
    r.remember name = r := by
  rcases r.remember_cases name with ⟨hsame, -⟩ | ⟨record, hnone, -, -⟩
  · exact hsame
  · rw [contains, hnone] at h
    cases h

theorem get?_remember {r : Registry} {name other : String} {record : Record}
    (h : r.get? other = some record) : (r.remember name).get? other = some record := by
  rcases r.remember_cases name with ⟨hsame, -⟩ | ⟨stored, hnone, -, hstore⟩
  · rw [hsame, h]
  · have hne : name ≠ other := by
      rintro rfl
      cases hnone.symm.trans h
    rw [hstore, get?_store, if_neg hne, h]

theorem contains_of_remember {r : Registry} {name other : String}
    (h : r.contains other = true) : (r.remember name).contains other = true := by
  rw [contains, Option.isSome_iff_exists] at h ⊢
  obtain ⟨record, hrecord⟩ := h
  exact ⟨record, get?_remember hrecord⟩

namespace Adds

variable {names : String → Prop} {r q : Registry}

protected theorem refl (names : String → Prop) (r : Registry) : r.Adds names r :=
  ⟨rfl, fun _ _ h => h, fun _ _ h => Or.inl h⟩

/-- The answers stay the same. -/
theorem answer_eq (h : r.Adds names q) : q.answer = r.answer := by
  funext n
  cases hq : q.get? n with
  | some record =>
      have hrecord : q.answer n = .ok record := by rw [answer, hq]
      rw [hrecord]
      rcases h.added n record hq with hr | ⟨-, hr⟩
      · rw [answer, hr]
      · exact hr.symm
  | none =>
      have hr : r.get? n = none := by
        cases hr : r.get? n with
        | none => rfl
        | some record => cases hq.symm.trans (h.kept n record hr)
      rw [answer, answer, hq, hr, h.provider]

/-- What is added when one of the names is asked for is a record of it. -/
theorem remember (h : r.Adds names q) {name : String} (hn : names name) :
    r.Adds names (q.remember name) := by
  rcases q.remember_cases name with ⟨hsame, -⟩ | ⟨record, -, hrecord, hstore⟩
  · rwa [hsame]
  · refine ⟨?_, fun n old hold => get?_remember (h.kept n old hold), fun n new hnew => ?_⟩
    · rw [hstore]
      exact h.provider
    · rw [hstore, get?_store] at hnew
      split at hnew
      · rename_i heq
        cases heq
        cases hnew
        rw [h.answer_eq] at hrecord
        exact Or.inr ⟨hn, hrecord⟩
      · exact h.added n new hnew

/-- What is kept where all of the names have a record. -/
theorem get?_iff (h : r.Adds names q) (hall : ∀ n, names n → q.contains n = true) (n : String)
    (record : Record) :
    q.get? n = some record ↔
      r.get? n = some record ∨ names n ∧ r.answer n = .ok record := by
  constructor
  · exact h.added n record
  · rintro (hr | ⟨hn, hr⟩)
    · exact h.kept n record hr
    · obtain ⟨kept, hkept⟩ := Option.isSome_iff_exists.mp (hall n hn)
      rw [← h.answer_eq, answer, hkept] at hr
      cases hr
      exact hkept

/-- The records that can be reached from a name last: to ask for one of them adds it at most. -/
theorem lasting (r : Registry) (name : String) :
    Registry.Lasting r.answer (Reachable r.answer name) (r.Adds (Reachable r.answer name)) where
  answers _ h := h.answer_eq
  fetch _ _ hn h := h.remember hn
  closed _ _ hn hrefers := hn.tail hrefers

end Adds

end Registry

/-! ### Instances -/

/-- **An instance, or what goes wrong with it, adds some of the records that can be reached.** -/
theorem drawInstance_adds {σ : Type} [RandomSource σ] {r : Registry} (ha : Settled r.answer)
    (s : Settings) (name : String) (given : List (String × Value)) (source : σ) :
    r.Adds (Reachable r.answer name) ((drawInstance s name given).run ⟨r, source⟩).2.registry :=
  (drawInstance_gives_lasting (Registry.Adds.lasting r name) ha s .refl given ⟨r, source⟩
    (Registry.Adds.refl _ r)).1

/-! ### Schemas -/

namespace Schema

/-- The records that the walk has defined are kept. -/
def Registered (s : Expansion) : Prop :=
  ∀ b d, (b, d) ∈ s.definitions → d.type = .record → s.registry.contains b = true

/-- The walk adds records that can be reached, and keeps those that it defines. -/
theorem adds_lasting (r : Registry) (name : String) :
    Lasting r.answer name
      fun s => r.Adds (Reachable r.answer name) s.registry ∧ Registered s where
  fetch := by
    rintro s other hother ⟨hadds, hregistered⟩
    exact ⟨hadds.remember hother,
      fun b d hd htype => Registry.contains_of_remember (hregistered b d hd htype)⟩
  define := by
    rintro s other d hkept ⟨hadds, hregistered⟩
    refine ⟨hadds, fun b e he htype => ?_⟩
    rcases Keyed.mem_put he with he | he
    · cases he
      exact hkept htype
    · exact hregistered b e he htype

section

variable {r r' : Registry} {strict : Bool} {name : String}

/-- The walk ends with what it has added to the registry. -/
theorem start_adds (ha : Settled r.answer) (strict : Bool) (name : String) :
    let t := ((expandF strict (r.knownNames.length + 1) ⟨"", none⟩ name).run ⟨r, []⟩).2
    r.Adds (Reachable r.answer name) t.registry ∧ Registered t :=
  (start_proceeds ha (adds_lasting r name) ⟨.refl _ r, fun _ _ h => (by cases h)⟩).1.2

/-- **A schema, or what goes wrong with it, adds some of the records that can be reached.** -/
theorem ofRecord_adds (ha : Settled r.answer) (strict : Bool) (name : String) :
    r.Adds (Reachable r.answer name) ((ofRecord strict name).run r).2 :=
  (start_adds ha strict name).1

/-- **A schema leaves all records behind that can be reached**: it defines every one of them. -/
theorem contains_of_run (ha : Settled r.answer) {T : Schema}
    (hrun : (ofRecord strict name).run r = (.ok T, r')) :
    ∀ n, Reachable r.answer name n → r'.contains n = true := by
  intro n hn
  obtain ⟨t, ht⟩ := run_ofRecord_eq_ok.mp ⟨r', hrun⟩
  obtain ⟨-, hrenders, hdefinitions⟩ :=
    expandF_expands ha strict _ ⟨"", none⟩ name ⟨r, []⟩ t T rfl (by simp) ht
  obtain ⟨full, hd⟩ := exists_definition_of_reachable ha hrenders hn
  have hmem : (n, ⟨full, .record⟩) ∈ t.definitions := by
    rw [hdefinitions]
    exact hd
  have hregistered := (start_adds ha strict name).2
  rw [ht] at hregistered
  have hregistry : t.registry = r' := by
    have h : ((ofRecord strict name).run r).2 = t.registry := by
      change ((expandF strict (r.knownNames.length + 1) ⟨"", none⟩ name).run ⟨r, []⟩).2.registry = _
      rw [ht]
    rw [← h, hrun]
  exact hregistry ▸ hregistered n _ hmem rfl

/-- Where all records that can be reached are kept, a schema changes nothing. -/
theorem run_ofRecord_of_contains (ha : Settled r.answer) (strict : Bool)
    (hall : ∀ n, Reachable r.answer name n → r.contains n = true) :
    ((ofRecord strict name).run r).2 = r := by
  have hlasting : Lasting r.answer name fun s => s.registry = r := by
    refine ⟨fun s n hn hs => ?_, fun s n d _ hs => hs⟩
    rw [hs]
    exact Registry.remember_of_contains (hall n hn)
  have hproceeds : ProceedsFrom r.answer strict name r.knownNames _ _ _ ⟨r, []⟩ :=
    start_proceeds ha hlasting rfl
  exact hproceeds.1.2

/-- **The same schema is made again, and nothing changes.** -/
theorem run_ofRecord_again (ha : Settled r.answer) {T : Schema}
    (hrun : (ofRecord strict name).run r = (.ok T, r')) :
    (ofRecord strict name).run r' = (.ok T, r') := by
  have hadds : r.Adds (Reachable r.answer name) r' := by
    have h := ofRecord_adds ha strict name
    rwa [hrun] at h
  have hanswer := hadds.answer_eq
  obtain ⟨hsame, -⟩ := ofRecord_agree ha strict name r r' ⟨rfl, hanswer⟩
  have hkept := contains_of_run ha hrun
  rw [← hanswer] at ha hkept
  have hregistry := run_ofRecord_of_contains ha strict hkept
  exact Prod.ext (hsame.symm.trans (by rw [hrun])) hregistry

end

end Schema

/-! ### What is kept afterwards -/

/-- **Schemas and instances add reachable records alone.**  After a schema was made, the records that
are kept are those that were, and all that can be reached; making it again gives it again and
changes nothing.  After a failure, and after an instance whether there is one or not, they are those
that were, and some that can be reached. -/
theorem adds_reachable_records {σ : Type} [RandomSource σ] {r : Registry} (hr : r.Reached)
    (name : String) :
    (∀ strict T r', (Schema.ofRecord strict name).run r = (.ok T, r') →
      r'.provider = r.provider ∧
      (∀ n record, r'.get? n = some record ↔
        r.get? n = some record ∨ Reachable r.answer name n ∧ r.answer n = .ok record) ∧
      (∀ n, Reachable r.answer name n → r'.contains n = true) ∧
      (Schema.ofRecord strict name).run r' = (.ok T, r')) ∧
    (∀ strict e r', (Schema.ofRecord strict name).run r = (.error e, r') →
      r.Adds (Reachable r.answer name) r') ∧
    (∀ (s : Settings) (given : List (String × Value)) (source : σ) i? t,
      (drawInstance s name given).run ⟨r, source⟩ = (i?, t) →
      r.Adds (Reachable r.answer name) t.registry) := by
  have ha := hr.settled
  have hadds : ∀ strict T? r', (Schema.ofRecord strict name).run r = (T?, r') →
      r.Adds (Reachable r.answer name) r' := by
    intro strict T? r' hrun
    have h := Schema.ofRecord_adds ha strict name
    rwa [hrun] at h
  refine ⟨fun strict T r' hrun => ?_, fun strict e r' hrun => hadds strict _ r' hrun,
    fun s given source i? t hrun => ?_⟩
  · have hall := Schema.contains_of_run ha hrun
    have hkept := hadds strict _ r' hrun
    exact ⟨hkept.provider, hkept.get?_iff hall, hall, Schema.run_ofRecord_again ha hrun⟩
  · have h := drawInstance_adds ha s name given source
    rwa [hrun] at h

/-- A record with a link, and with a lock that is not declared anywhere. -/
def chainDeclaration : DeclaredRecord :=
  ⟨"Chain", none, none, [], [
    ⟨"first", .record "Link", none, ⟨none, none, none, none, none, []⟩⟩,
    ⟨"lock", .record "Lock", none, ⟨none, none, none, none, none, []⟩⟩]⟩

/-- The registry that asks a provider for links and chains. -/
def chainRegistry : Registry := .ofProvider (.ofDeclarations [linkDeclaration, chainDeclaration])

/-- The record of the links is kept after their schema was made, and after an instance.  There is no
schema of a chain, but the links that were asked for on the way to the lock are kept. -/
theorem links_are_added :
    chainRegistry.Reached ∧
      (∃ T r' i t,
        (Schema.ofRecord true "Link").run chainRegistry = (.ok T, r') ∧
        (drawInstance {} "Link" []).run ⟨chainRegistry, (⟨[], 0⟩ : SplitMix)⟩ = (.ok i, t) ∧
        r'.contains "Link" = true ∧ (Schema.ofRecord true "Link").run r' = (.ok T, r') ∧
        chainRegistry.Adds (Reachable chainRegistry.answer "Link") t.registry) ∧
      ∃ e r', (Schema.ofRecord true "Chain").run chainRegistry = (.error e, r') ∧
        r'.contains "Link" = true ∧
        chainRegistry.Adds (Reachable chainRegistry.answer "Chain") r' := by
  have hreached : chainRegistry.Reached := .new _
  have hschema : ∃ T r', (Schema.ofRecord true "Link").run chainRegistry = (.ok T, r') :=
    ⟨_, _, by with_unfolding_all rfl⟩
  have hinstance : ∃ i t, (drawInstance {} "Link" []).run
      ⟨chainRegistry, (⟨[], 0⟩ : SplitMix)⟩ = (.ok i, t) :=
    ⟨_, _, by with_unfolding_all rfl⟩
  have hfails : ∃ e r', (Schema.ofRecord true "Chain").run chainRegistry = (.error e, r') ∧
      r'.contains "Link" = true :=
    ⟨_, _, by with_unfolding_all rfl, by with_unfolding_all rfl⟩
  obtain ⟨T, r', hrun⟩ := hschema
  obtain ⟨i, t, hdraw⟩ := hinstance
  obtain ⟨e, q, hfails, hlink⟩ := hfails
  obtain ⟨hmade, -, hdrawn⟩ := adds_reachable_records (σ := SplitMix) hreached "Link"
  obtain ⟨-, hfailed, -⟩ := adds_reachable_records (σ := SplitMix) hreached "Chain"
  obtain ⟨-, -, hall, hagain⟩ := hmade true T r' hrun
  exact ⟨hreached,
    ⟨T, r', i, t, hrun, hdraw, hall "Link" .refl, hagain, hdrawn {} [] _ _ t hdraw⟩,
    e, q, hfails, hlink, hfailed true e q hfails⟩

end RecordModel
