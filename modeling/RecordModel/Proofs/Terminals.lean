/-
**Where values end early.**

A collection without items, and null for a union or an optional type, are the ends that a value of a
record that refers to itself comes to.  They are taken only where nothing else is left: where the
look-ahead, which starts from the same chain as the value, finds no end for the items of a collection
or for any member of a union that is not null.  Otherwise a collection has the size that the settings
ask for and a union has the value of a member.  For an optional type the settings may ask for null
besides, with a probability that may be certain or none at all.

The members of unions are not null and have no alternatives of their own, for the types of records
are canonical; so a value of a member is never null.

Main definitions:

* `Registry.HasType` — the types that a generation for some record can come to;
* `Generator.EndsWhereNeeded` — the ends are taken only where nothing else is left.

Main results:

* `Drawn.ne_null` — a value of a type that is not null and has no alternatives is not null;
* `Generator.exists_member_run` — a value that is not null comes from a run for a member;
* `Generator.ends_where_needed` — **what a run for a type gives, by what has an end**.
-/

import RecordModel.Proofs.CanonicalTypes
import RecordModel.Proofs.Drawn

set_option relaxedAutoImplicit false
set_option autoImplicit false

namespace RecordModel

open Stateful

/-! ### Probabilities -/

theorem Draw.threshold_one : Draw.threshold Settings.one = pow2 64 := by
  decide +kernel

theorem Draw.threshold_of_order_eq_zero {p : Binary64} (h : p.order = 0) :
    Draw.threshold p = 0 := by
  have hmagnitude : p.magnitude = 0 := by
    unfold Binary.order at h
    split at h <;> omega
  have hsignificand : p.significand = 0 := by
    simp [Binary.significand, Binary.exponentField, Binary.fraction, hmagnitude]
  simp [Draw.threshold, hsignificand]

/-! ### Drawn values -/

theorem Primitive.eq_null_of_carries {kind : Primitive} (h : kind.carries .null = true) :
    kind = .null := by
  cases kind with
  | null => rfl
  | _ => cases h

theorem Logical.not_carries_null (kind : Logical) : ¬ kind.carries .null = true := by
  cases kind <;> simp [carries]

namespace Drawn

variable {answer : String → Except Error Record} {s : Settings} {levels : Nat}
  {chain : List String} {d m : Descriptor} {v : Value}

/-- A value of a type that is not null and has no alternatives is not null. -/
theorem ne_null (h : Drawn answer s levels chain d v) (hplain : d.hasAlternatives = false)
    (hnull : d.isNull = false) : v ≠ .null := by
  rintro rfl
  cases h with
  | primitive hcarries =>
      cases Primitive.eq_null_of_carries hcarries
      cases hnull
  | logical hcarries => exact absurd hcarries (Logical.not_carries_null _)
  | absent hd _ _ => cases hd.symm.trans hplain
  | member hd _ _ _ _ _ => cases hd.symm.trans hplain

/-- Items are as many as the settings ask for if their type has an end, and there are none if not. -/
theorem items_length {items : Descriptor} (h : Drawn answer s levels chain (.array items) v) :
    ∃ vs, v = .array vs ∧
      (Viable answer s.selfReferenceDepth chain items →
        s.minItems ≤ vs.length ∧ vs.length ≤ s.maxItems) ∧
      (¬ Viable answer s.selfReferenceDepth chain items → vs = []) := by
  cases h with
  | items hviable hleast hmost _ =>
      exact ⟨_, rfl, fun _ => ⟨hleast, hmost⟩, fun h => absurd hviable h⟩
  | noItems hnot => exact ⟨_, rfl, fun h => absurd h hnot, fun _ => rfl⟩
  | absent hd _ _ => cases hd
  | member hd _ _ _ _ _ => cases hd

/-- Entries have distinct keys.  They are as many as the settings ask for if the type of their values
has an end, and there are none if not. -/
theorem entries_length {values : Descriptor} (h : Drawn answer s levels chain (.map values) v) :
    ∃ entries, v = .map entries ∧ (Keyed.keys entries).Nodup ∧
      (Viable answer s.selfReferenceDepth chain values →
        s.minItems ≤ entries.length ∧ entries.length ≤ s.maxItems) ∧
      (¬ Viable answer s.selfReferenceDepth chain values → entries = []) := by
  cases h with
  | values hviable hleast hmost hsorted _ =>
      exact ⟨_, rfl, Keyed.nodup_of_sorted hsorted, fun _ => ⟨hleast, hmost⟩,
        fun h => absurd hviable h⟩
  | noValues hnot => exact ⟨_, rfl, List.nodup_nil, fun h => absurd h hnot, fun _ => rfl⟩
  | absent hd _ _ => cases hd
  | member hd _ _ _ _ _ => cases hd

/-- Null is drawn by chance, or where no other alternative has an end. -/
theorem not_viable_of_null (hflat : d.FlatAlternatives) (hd : d.hasAlternatives = true)
    (h : Drawn answer s levels chain d .null) :
    d.isOptional = true ∧ 0 < Draw.threshold s.nullProbability ∨
      ∀ m ∈ d.alternatives, m.isNull = false → ¬ Viable answer s.selfReferenceDepth chain m := by
  cases h with
  | primitive _ => cases hd
  | logical _ => cases hd
  | absent _ _ hwhy => exact hwhy
  | member _ hm hn _ _ hdrawn => exact absurd rfl (hdrawn.ne_null (hflat.plain _ hm) hn)

/-- A value that is not null is one of an alternative that has an end, and was not passed over for
null. -/
theorem exists_viable (hd : d.hasAlternatives = true) (h : Drawn answer s levels chain d v)
    (hv : v ≠ .null) :
    (∃ m ∈ d.alternatives, m.isNull = false ∧ Viable answer s.selfReferenceDepth chain m) ∧
      (d.isOptional = true → Draw.threshold s.nullProbability ≠ pow2 64) := by
  cases h with
  | absent _ _ _ => exact absurd rfl hv
  | member _ hm hn hviable hchance _ => exact ⟨⟨_, hm, hn, hviable⟩, hchance⟩
  | _ => cases hd

end Drawn

/-! ### Runs -/

/-- The types that a generation for some record can come to: those within the types of the fields of
a record that the registry answers. -/
def Registry.HasType (r : Registry) (d : Descriptor) : Prop :=
  ∃ owner record, r.answer owner = .ok record ∧ ∃ f ∈ record.fields, Descriptor.Within d f.type

theorem Registry.HasType.flatAlternatives {r : Registry} (ha : Settled r.answer) {d : Descriptor}
    (h : r.HasType d) : d.FlatAlternatives := by
  obtain ⟨owner, record, hr, f, hf, hw⟩ := h
  exact ((ha.canonical hr f hf).within hw).flatAlternatives

namespace Generator

variable {σ : Type} [RandomSource σ] {answer : String → Except Error Record} {s : Settings}
  {levels : Nat} {chain : List String} {position : Position} {d : Descriptor} {v : Value}
  {st t : GeneratorState σ}

/-- A value of one of some types comes from a run for one of them. -/
theorem exists_chosen_run {value : Descriptor → GeneratorM σ Value} {ms : List Descriptor}
    (hst : Knows answer st) (hrun : (chosenWith value position ms).run st = (.ok v, t)) :
    ∃ m ∈ ms, ∃ u, Knows answer u ∧ (value m).run u = (.ok v, t) := by
  have hgives : Gives (Knows answer) (choose? ms : GeneratorM σ (Option Descriptor)) _
      fun _ => True := choose?_gives ms
  obtain ⟨m?, u, hchoose, hrun⟩ := run_bind_eq_ok.mp hrun
  obtain ⟨hu, hm⟩ := hgives.of_run_ok hst hchoose
  cases m? with
  | none => cases hrun
  | some m => exact ⟨m, hm, u, hu, hrun⟩

/-- **A value that is not null comes from a run for a member** that is not null and has an end. -/
theorem exists_member_run (ha : Settled answer) {value : Descriptor → GeneratorM σ Value}
    (hst : Knows answer st) (hrun : (unionWith s value chain position d).run st = (.ok v, t))
    (hv : v ≠ .null) :
    ∃ m ∈ d.alternatives, m.isNull = false ∧ Viable answer s.selfReferenceDepth chain m ∧
      ∃ u, Knows answer u ∧ (value m).run u = (.ok v, t) := by
  have hlook : Gives (Knows answer)
      (ask (generableAlternatives s.selfReferenceDepth chain d.alternatives) :
        GeneratorM σ (List Descriptor)) _ fun _ => True :=
    ask_gives (generableAlternatives_gives (Answers.lasting answer) ha _ chain
      fun _ _ _ _ => trivial) fun _ _ => trivial
  have hchance : Gives (Knows (σ := σ) answer) (chance s.nullProbability) _ fun _ => True :=
    (chance_gives s.nullProbability).mono_error fun _ _ => trivial
  obtain ⟨candidates, st₁, hcandidates, hrun⟩ := run_bind_eq_ok.mp hrun
  obtain ⟨hst₁, hmem⟩ := hlook.of_run_ok hst hcandidates
  have hmember : ∀ st₂, Knows answer st₂ →
      (chosenWith value position candidates).run st₂ = (.ok v, t) →
      ∃ m ∈ d.alternatives, m.isNull = false ∧ Viable answer s.selfReferenceDepth chain m ∧
        ∃ u, Knows answer u ∧ (value m).run u = (.ok v, t) := by
    intro st₂ hst₂ hchosen
    obtain ⟨m, hm, u, hu, hvalue⟩ := exists_chosen_run hst₂ hchosen
    obtain ⟨halt, hn, hviable⟩ := (hmem m).mp hm
    exact ⟨m, halt, hn, hviable, u, hu, hvalue⟩
  split at hrun
  · split at hrun
    · cases hrun
      exact absurd rfl hv
    · cases hrun
  · split at hrun
    · obtain ⟨absent, st₂, habsent, hrun⟩ := run_bind_eq_ok.mp hrun
      obtain ⟨hst₂, -⟩ := hchance.of_run_ok hst₁ habsent
      cases absent with
      | true =>
          cases hrun
          exact absurd rfl hv
      | false => exact hmember st₂ hst₂ hrun
    · exact hmember st₁ hst₁ hrun

/-- **The ends of a type are taken only where nothing else is left.**  This is what a value owes to the
chain that it is generated after; `t` is the state that its run ends in. -/
structure EndsWhereNeeded (answer : String → Except Error Record) (s : Settings) (levels : Nat)
    (chain : List String) (position : Position) (d : Descriptor) (v : Value)
    (t : GeneratorState σ) : Prop where
  /-- Items are as many as the settings ask for if their type has an end, and there are none if
  not. -/
  items : ∀ items, d = .array items → ∃ vs, v = .array vs ∧
    (Viable answer s.selfReferenceDepth chain items →
      s.minItems ≤ vs.length ∧ vs.length ≤ s.maxItems) ∧
    (¬ Viable answer s.selfReferenceDepth chain items → vs = [])
  /-- So are entries, and these have distinct keys. -/
  entries : ∀ values, d = .map values → ∃ es, v = .map es ∧ (Keyed.keys es).Nodup ∧
    (Viable answer s.selfReferenceDepth chain values →
      s.minItems ≤ es.length ∧ es.length ≤ s.maxItems) ∧
    (¬ Viable answer s.selfReferenceDepth chain values → es = [])
  /-- A union is null exactly if no member that is not null has an end. -/
  union : ∀ members, d = .union members →
    (v = .null ↔
      ∀ m ∈ members, m.isNull = false → ¬ Viable answer s.selfReferenceDepth chain m)
  /-- What is not null comes from a run for such a member that has one, after the same chain. -/
  member : d.hasAlternatives = true → v ≠ .null →
    ∃ m ∈ d.alternatives, m.isNull = false ∧ Viable answer s.selfReferenceDepth chain m ∧
      ∃ u, Knows answer u ∧ (valueF s (levels - 1) chain position m).run u = (.ok v, t)
  /-- An optional value is null if no other alternative has an end, -/
  absent : ∀ inner, d = .optional inner →
    (∀ m ∈ d.alternatives, m.isNull = false → ¬ Viable answer s.selfReferenceDepth chain m) →
    v = .null
  /-- and if the probability of null is one. -/
  certain : ∀ inner, d = .optional inner → s.nullProbability = Settings.one → v = .null
  /-- It is not null if the probability is zero, of either sign, and another alternative has an
  end. -/
  never : ∀ inner, d = .optional inner → s.nullProbability.order = 0 →
    (∃ m ∈ d.alternatives, m.isNull = false ∧ Viable answer s.selfReferenceDepth chain m) →
    v ≠ .null

/-- A run for a type with flat alternatives takes its ends only where nothing else is left. -/
theorem endsWhereNeeded_of_run (ha : Settled answer) (hflat : d.FlatAlternatives)
    (hst : Knows answer st) (hrun : (valueF s levels chain position d).run st = (.ok v, t)) :
    EndsWhereNeeded answer s levels chain position d v t := by
  obtain ⟨-, hdrawn⟩ := (valueF_gives ha s levels chain position d).of_run_ok hst hrun
  -- where no alternative but null has an end there is no value but null
  have hnull : d.hasAlternatives = true →
      (∀ m ∈ d.alternatives, m.isNull = false → ¬ Viable answer s.selfReferenceDepth chain m) →
      v = .null := by
    intro hd hnone
    by_contra hv
    obtain ⟨⟨m, hm, hn, hviable⟩, -⟩ := hdrawn.exists_viable hd hv
    exact hnone m hm hn hviable
  refine ⟨?_, ?_, ?_, ?_, ?_, ?_, ?_⟩
  · rintro items rfl
    exact hdrawn.items_length
  · rintro values rfl
    exact hdrawn.entries_length
  · rintro members rfl
    refine ⟨?_, hnull rfl⟩
    rintro rfl
    rcases hdrawn.not_viable_of_null hflat rfl with ⟨hoptional, -⟩ | hnone
    · cases hoptional
    · exact hnone
  · intro hd hv
    cases levels with
    | zero => cases hrun
    | succ levels =>
        have hunion : (unionWith s (valueF s levels chain position) chain position d).run st =
            (.ok v, t) := by
          cases d with
          | union members => exact hrun
          | optional inner => exact hrun
          | _ => cases hd
        exact exists_member_run ha hst hunion hv
  · rintro inner rfl hnone
    exact hnull rfl hnone
  · rintro inner rfl hone
    by_contra hv
    obtain ⟨-, hchance⟩ := hdrawn.exists_viable rfl hv
    exact hchance rfl (hone ▸ Draw.threshold_one)
  · rintro inner rfl hzero ⟨m, hm, hn, hviable⟩ rfl
    rcases hdrawn.not_viable_of_null hflat rfl with ⟨-, hpositive⟩ | hnone
    · rw [Draw.threshold_of_order_eq_zero hzero] at hpositive
      exact absurd hpositive (Nat.lt_irrefl 0)
    · exact hnone m hm hn hviable

/-- **What a run for a type gives, by what has an end.**  Whatever the source and the settings, and
wherever in a generation on the registry a run starts, for the registry keeps its answers: the
look-ahead says whether a type has an end after the chain, and a value takes the ends of its type only
where nothing else is left after that chain. -/
theorem ends_where_needed {r : Registry} (hr : r.Reached) (hd : r.HasType d) (s : Settings)
    (levels : Nat) (chain : List String) (position : Position) :
    (∀ e b q q', Answers r.answer q →
      (generable s.selfReferenceDepth chain e).run q = (.ok b, q') →
      (b = true ↔ Viable r.answer s.selfReferenceDepth chain e)) ∧
    ∀ (st : GeneratorState σ) v t, Knows r.answer st →
      (valueF s levels chain position d).run st = (.ok v, t) →
      EndsWhereNeeded r.answer s levels chain position d v t := by
  have ha := hr.settled
  refine ⟨fun e b q q' hq hlook => ?_, fun st v t hst hrun => ?_⟩
  · exact ((generable_gives ha s.selfReferenceDepth chain e).of_run_ok hq hlook).2
  · exact endsWhereNeeded_of_run ha (hd.flatAlternatives ha) hst hrun

end Generator

/-- A record with eggs, with nests like itself, and perhaps one above it. -/
def nestDeclaration : DeclaredRecord :=
  ⟨"Nest", none, none, [], [
    ⟨"eggs", .list .boolean, none, ⟨none, none, none, none, none, []⟩⟩,
    ⟨"nests", .list .self, none, ⟨none, none, none, none, none, []⟩⟩,
    ⟨"above", .union [.self, .null], none, ⟨none, none, none, none, none, []⟩⟩]⟩

/-- The registry with that record. -/
def nestRegistry : Registry := ((Registry.declare nestDeclaration).run Registry.empty).2

/-- The record of the nests. -/
def nestRecord : Record :=
  ⟨"Nest", none, none, [], [
    ⟨"eggs", .array (.primitive .boolean), none, 0, none, []⟩,
    ⟨"nests", .array (.reference "Nest"), none, 1, none, []⟩,
    ⟨"above", .union [.reference "Nest", .null], none, 2, none, []⟩]⟩

/-- Inside a nest there are eggs, but no nests and none above. -/
theorem nest_ends :
    nestRegistry.Reached ∧
      (∃ (vs : List Value) (t : GeneratorState SplitMix),
        (Generator.valueF {} 3 ["Nest"] ⟨"Nest", some "eggs"⟩ (.array (.primitive .boolean))).run
          ⟨nestRegistry, ⟨[], 0⟩⟩ = (.ok (.array vs), t) ∧ 1 ≤ vs.length ∧ vs.length ≤ 3) ∧
      (∃ t : GeneratorState SplitMix,
        (Generator.valueF {} 3 ["Nest"] ⟨"Nest", some "nests"⟩ (.array (.reference "Nest"))).run
          ⟨nestRegistry, ⟨[], 0⟩⟩ = (.ok (.array []), t)) ∧
      ∃ t : GeneratorState SplitMix,
        (Generator.valueF {} 3 ["Nest"] ⟨"Nest", some "above"⟩
          (.union [.reference "Nest", .null])).run ⟨nestRegistry, ⟨[], 0⟩⟩ = (.ok .null, t) := by
  have hreached : nestRegistry.Reached := .declare _ (.new none)
  have hrecord : nestRegistry.answer "Nest" = .ok nestRecord := by with_unfolding_all rfl
  have htype : ∀ f ∈ nestRecord.fields, nestRegistry.HasType f.type :=
    fun f hf => ⟨"Nest", nestRecord, hrecord, f, hf, .refl⟩
  have hnot : ¬ Viable nestRegistry.answer 1 ["Nest"] (.reference "Nest") :=
    not_viable_of_atLimit (by decide)
  have heggs : ∃ v t, (Generator.valueF {} 3 ["Nest"] ⟨"Nest", some "eggs"⟩
      (.array (.primitive .boolean))).run
        (⟨nestRegistry, ⟨[], 0⟩⟩ : GeneratorState SplitMix) = (.ok v, t) :=
    ⟨_, _, by with_unfolding_all rfl⟩
  have hnests : ∃ v t, (Generator.valueF {} 3 ["Nest"] ⟨"Nest", some "nests"⟩
      (.array (.reference "Nest"))).run
        (⟨nestRegistry, ⟨[], 0⟩⟩ : GeneratorState SplitMix) = (.ok v, t) :=
    ⟨_, _, by with_unfolding_all rfl⟩
  have habove : ∃ v t, (Generator.valueF {} 3 ["Nest"] ⟨"Nest", some "above"⟩
      (.union [.reference "Nest", .null])).run
        (⟨nestRegistry, ⟨[], 0⟩⟩ : GeneratorState SplitMix) = (.ok v, t) :=
    ⟨_, _, by with_unfolding_all rfl⟩
  obtain ⟨eggs, t₁, heggs⟩ := heggs
  obtain ⟨nests, t₂, hnests⟩ := hnests
  obtain ⟨above, t₃, habove⟩ := habove
  have hends := fun f (hf : f ∈ nestRecord.fields) => (Generator.ends_where_needed hreached
    (htype f hf) {} 3 ["Nest"] ⟨"Nest", some f.name⟩).2
    (⟨nestRegistry, ⟨[], 0⟩⟩ : GeneratorState SplitMix)
  obtain ⟨vs, rfl, hsize, -⟩ :=
    (hends _ (.head _) eggs t₁ rfl heggs).items _ rfl
  obtain ⟨ns, rfl, -, hempty⟩ :=
    (hends _ (.tail _ (.head _)) nests t₂ rfl hnests).items _ rfl
  have hnull := ((hends _ (.tail _ (.tail _ (.head _))) above t₃ rfl habove).union _ rfl).mpr
    fun m hm hn => by
      rcases List.mem_cons.mp hm with rfl | hm
      · exact hnot
      · cases List.mem_singleton.mp hm
        cases hn
  refine ⟨hreached, ⟨vs, t₁, heggs, hsize (.terminal rfl)⟩, ⟨t₂, ?_⟩, t₃, ?_⟩
  · rw [hnests, hempty hnot]
  · rw [habove, hnull]

end RecordModel
