/-
**When a type has an end.**

Along a chain of records, each of which may stand on it only so often, a type has an end when its
references can be followed to values without passing that limit.  The look-ahead of the generator
decides this: what it says is read off the answers of the registry alone, and the number of records
that it may push is enough whatever the chain.

Main definitions:

* `Viable` — a type has an end after a chain;
* `Unresolved` — the error of a name that a type leads to;
* `Registry.Lasting` — what lasts of a registry that is asked for some names alone;
* `room` — how many records may still be pushed on a chain.

Main results:

* `viable_reference_iff` — a reference has an end when all fields of its record have one;
* `Registry.Lasting.recordGenerableF_gives` — with enough room left the look-ahead decides about a
  record;
* `generable_gives` — **the look-ahead decides whether a type has an end**.
-/

import RecordModel.Generator.Generable
import RecordModel.Proofs.Answers

set_option relaxedAutoImplicit false
set_option autoImplicit false

namespace RecordModel

open Stateful

/-! ### Types with an end -/

/-- Whether values of the type end whatever the chain: a collection may be empty, and an optional
value may be absent. -/
def Descriptor.isTerminal : Descriptor → Bool
  | .union _ => false
  | .reference _ => false
  | _ => true

/-- A type has an end after the records of the chain, the innermost one first: references can be
followed to values such that no record stands on the chain more often than the limit. -/
inductive Viable (answer : String → Except Error Record) (limit : Nat) :
    List String → Descriptor → Prop
  | terminal {chain : List String} {d : Descriptor} :
      d.isTerminal = true → Viable answer limit chain d
  | member {chain : List String} {members : List Descriptor} {m : Descriptor} :
      m ∈ members → Viable answer limit chain m → Viable answer limit chain (.union members)
  | record {chain : List String} {name : String} {record : Record} :
      chain.count name < limit → answer name = .ok record →
      (∀ f ∈ record.fields, Viable answer limit (name :: chain) f.type) →
      Viable answer limit chain (.reference name)

/-- The error of a name that the type leads to. -/
def Unresolved (answer : String → Except Error Record) (d : Descriptor) (e : Error) : Prop :=
  ∃ name, d.Reaches answer name ∧ answer name = .error e

section

variable {answer : String → Except Error Record} {limit : Nat} {chain : List String}

/-- A reference has an end when its record may still be pushed and all of its fields have one. -/
theorem viable_reference_iff {name : String} {record : Record} (hr : answer name = .ok record) :
    Viable answer limit chain (.reference name) ↔
      chain.count name < limit ∧
        ∀ f ∈ record.fields, Viable answer limit (name :: chain) f.type := by
  constructor
  · intro h
    cases h with
    | terminal ht => simp [Descriptor.isTerminal] at ht
    | record hc hr' hf =>
        rw [hr] at hr'
        cases hr'
        exact ⟨hc, hf⟩
  · rintro ⟨hc, hf⟩
    exact .record hc hr hf

/-- A union has an end when one of its members has one. -/
theorem viable_union_iff {members : List Descriptor} :
    Viable answer limit chain (.union members) ↔ ∃ m ∈ members, Viable answer limit chain m := by
  constructor
  · intro h
    cases h with
    | terminal ht => simp [Descriptor.isTerminal] at ht
    | member hm h => exact ⟨_, hm, h⟩
  · rintro ⟨m, hm, h⟩
    exact .member hm h

/-- A union or an optional type has an end when one of its alternatives has one. -/
theorem viable_iff_alternatives {d : Descriptor} (hd : d.hasAlternatives = true) :
    Viable answer limit chain d ↔ ∃ m ∈ d.alternatives, Viable answer limit chain m := by
  cases d with
  | union members =>
      rw [Descriptor.alternatives]
      exact viable_union_iff
  | optional inner =>
      -- the null of an optional type is always left
      refine iff_of_true (.terminal rfl) ⟨_, Descriptor.null_mem_alternatives rfl, .terminal rfl⟩
  | _ => simp [Descriptor.hasAlternatives] at hd

theorem viable_of_isNull {d : Descriptor} (h : d.isNull = true) : Viable answer limit chain d := by
  rw [(Descriptor.isNull_iff d).mp h]
  exact .terminal rfl

theorem not_viable_of_atLimit {name : String} (h : atLimit limit chain name = true) :
    ¬ Viable answer limit chain (.reference name) := by
  intro hv
  have hle : limit ≤ chain.count name := by simpa [atLimit] using h
  cases hv with
  | terminal ht => simp [Descriptor.isTerminal] at ht
  | record hc _ _ => omega

theorem Unresolved.of_within {d e : Descriptor} {x : Error} (h : Unresolved answer e x)
    (hw : Descriptor.Within e d) : Unresolved answer d x := by
  obtain ⟨name, hn, ha⟩ := h
  exact ⟨name, hn.of_within hw, ha⟩

theorem Unresolved.of_mem_alternatives {d e : Descriptor} {x : Error} (h : Unresolved answer e x)
    (he : e ∈ d.alternatives) : Unresolved answer d x := by
  obtain ⟨name, hn, ha⟩ := h
  exact ⟨name, hn.of_mem_alternatives he, ha⟩

end

/-! ### The look-ahead -/

/-- The registry gives these answers. -/
def Answers (answer : String → Except Error Record) (r : Registry) : Prop := r.answer = answer

/-- What lasts of a registry that is asked for some names alone.  The registry gives the answers, and
the names lead to no others. -/
structure Registry.Lasting (answer : String → Except Error Record) (names : String → Prop)
    (J : Registry → Prop) : Prop where
  answers : ∀ r, J r → Answers answer r
  fetch : ∀ r name, names name → J r → J (r.remember name)
  closed : ∀ name other, names name → Refers answer name other → names other

theorem Answers.lasting (answer : String → Except Error Record) :
    Registry.Lasting answer (fun _ => True) (Answers answer) where
  answers _ hr := hr
  fetch r name _ hr := (Registry.answer_fetch r name).trans hr
  closed _ _ _ _ := trivial

/-- The references within the type are to some of the names. -/
def Descriptor.Names (names : String → Prop) (d : Descriptor) : Prop :=
  ∀ name, Within (.reference name) d → names name

namespace Descriptor.Names

variable {names : String → Prop} {d e : Descriptor}

theorem of_within (h : d.Names names) (hw : Within e d) : e.Names names :=
  fun name hn => h name (hn.trans hw)

theorem alternative (h : d.Names names) (he : e ∈ d.alternatives) : e.Names names :=
  fun name hn => h name (within_of_mem_alternatives rfl he hn)

end Descriptor.Names

/-- The references within the fields of a record are to some of the names if the record is one. -/
theorem Registry.Lasting.names_of_field {answer : String → Except Error Record}
    {names : String → Prop} {J : Registry → Prop} (hJ : Registry.Lasting answer names J)
    {name : String} (hn : names name) {record : Record} (hr : answer name = .ok record)
    {f : Field} (hf : f ∈ record.fields) : f.type.Names names :=
  fun other hw => hJ.closed name other hn ⟨record, hr, f, hf, hw⟩

/-- Fetching gives the answer. -/
theorem Registry.Lasting.fetch_gives {answer : String → Except Error Record}
    {names : String → Prop} {J : Registry → Prop} (hJ : Registry.Lasting answer names J)
    {name : String} (hn : names name) :
    Gives J (Registry.fetch name) (fun record => answer name = .ok record)
      (fun e => answer name = .error e) := by
  intro r hr
  refine ⟨hJ.fetch r name hn hr, ?_⟩
  rw [Registry.fetch_run]
  have hr' : r.answer name = answer name := congrFun (hJ.answers r hr) name
  cases h : r.answer name with
  | error e => exact hr'.symm.trans h
  | ok record => exact hr'.symm.trans h

theorem fetch_gives (answer : String → Except Error Record) (name : String) :
    Gives (Answers answer) (Registry.fetch name) (fun record => answer name = .ok record)
      (fun e => answer name = .error e) :=
  (Answers.lasting answer).fetch_gives trivial

section

variable {answer : String → Except Error Record} {J : Registry → Prop} {limit : Nat}
  {chain : List String} {ofRecord : String → RegistryM Bool} {E : Error → Prop}

/-- What `ofRecord` is asked and says about the references within a type. -/
def Decides (answer : String → Except Error Record) (J : Registry → Prop) (limit : Nat)
    (chain : List String) (ofRecord : String → RegistryM Bool) (E : Error → Prop)
    (d : Descriptor) : Prop :=
  ∀ name, Descriptor.Within (.reference name) d →
    Gives J (ofRecord name) (fun b => b = true ↔ Viable answer limit chain (.reference name)) E

/-- No record is asked about a type that has an end whatever the chain. -/
theorem generableWith_of_isTerminal {d : Descriptor} (hd : d.isTerminal = true) :
    generableWith ofRecord d = pure true := by
  cases d <;> simp_all [generableWith, Descriptor.isTerminal]

mutual

/-- When it is known which records have an end, it is decided which types have one. -/
theorem generableWith_gives (d : Descriptor) (h : Decides answer J limit chain ofRecord E d) :
    Gives J (generableWith ofRecord d)
      (fun b => b = true ↔ Viable answer limit chain d) E := by
  cases d with
  | reference name =>
      rw [generableWith]
      exact h name .refl
  | union members =>
      rw [generableWith]
      have hm : ∀ m ∈ members, Decides answer J limit chain ofRecord E m :=
        fun m hm name hw => h name (.member hm hw)
      refine (anyGenerableWith_gives members hm).mono (fun b hb => ?_) fun _ he => he
      rw [hb, viable_union_iff]
  | _ =>
      rw [generableWith_of_isTerminal rfl]
      exact Gives.pure ⟨fun _ => .terminal rfl, fun _ => rfl⟩

/-- When it is known which records have an end, it is decided whether one of some types has one. -/
theorem anyGenerableWith_gives (ms : List Descriptor)
    (h : ∀ m ∈ ms, Decides answer J limit chain ofRecord E m) :
    Gives J (anyGenerableWith ofRecord ms)
      (fun b => b = true ↔ ∃ m ∈ ms, Viable answer limit chain m) E := by
  cases ms with
  | nil =>
      rw [anyGenerableWith]
      exact Gives.pure (by simp)
  | cons m rest =>
      rw [anyGenerableWith]
      split
      · rename_i hn
        exact Gives.pure ⟨fun _ => ⟨m, List.mem_cons_self .., viable_of_isNull hn⟩, fun _ => rfl⟩
      · refine Gives.bind (generableWith_gives m (h m (List.mem_cons_self ..))) fun b hb => ?_
        split
        · rename_i ht
          exact Gives.pure ⟨fun _ => ⟨m, List.mem_cons_self .., hb.mp ht⟩, fun _ => rfl⟩
        · rename_i hf
          have hrest := anyGenerableWith_gives rest fun m hm => h m (List.mem_cons_of_mem _ hm)
          refine hrest.mono (fun c hc => ?_) fun _ he => he
          rw [hc, List.exists_mem_cons_iff]
          exact (or_iff_right (mt hb.mpr hf)).symm

end

/-- When it is known which records have an end, it is decided whether all of some types have one. -/
theorem allGenerableWith_gives (ds : List Descriptor)
    (h : ∀ d ∈ ds, Decides answer J limit chain ofRecord E d) :
    Gives J (allGenerableWith ofRecord ds)
      (fun b => b = true ↔ ∀ d ∈ ds, Viable answer limit chain d) E := by
  induction ds with
  | nil =>
      rw [allGenerableWith]
      exact Gives.pure (by simp)
  | cons d rest ih =>
      rw [allGenerableWith]
      refine Gives.bind (generableWith_gives d (h d (List.mem_cons_self ..))) fun b hb => ?_
      split
      · rename_i ht
        refine (ih fun d hd => h d (List.mem_cons_of_mem _ hd)).mono (fun c hc => ?_) fun _ he => he
        rw [hc, List.forall_mem_cons]
        exact (and_iff_right (hb.mp ht)).symm
      · rename_i hf
        refine Gives.pure ⟨fun h => (by simp at h), fun hall => ?_⟩
        exact absurd (hb.mpr (hall d (List.mem_cons_self ..))) hf

end

/-! ### Room on a chain -/

/-- How many records may still be pushed on a chain, by their names. -/
def room (limit : Nat) (chain : List String) : List String → Nat
  | [] => 0
  | n :: rest => limit - chain.count n + room limit chain rest

theorem room_le (limit : Nat) (chain known : List String) :
    room limit chain known ≤ known.length * limit := by
  induction known with
  | nil => exact Nat.zero_le _
  | cons n rest ih =>
      rw [room, List.length_cons, Nat.succ_mul]
      omega

theorem room_cons_le (limit : Nat) (chain known : List String) (name : String) :
    room limit (name :: chain) known ≤ room limit chain known := by
  induction known with
  | nil => exact Nat.le_refl _
  | cons n rest ih =>
      have hc : chain.count n ≤ (name :: chain).count n := List.count_le_count_cons
      rw [room, room]
      omega

/-- Pushing a record leaves less room. -/
theorem room_cons_lt {limit : Nat} {chain known : List String} {name : String}
    (hk : name ∈ known) (hc : chain.count name < limit) :
    room limit (name :: chain) known < room limit chain known := by
  induction known with
  | nil => cases hk
  | cons n rest ih =>
      have hle := room_cons_le limit chain rest name
      have hcn : chain.count n ≤ (name :: chain).count n := List.count_le_count_cons
      -- the name itself counts once more, and no other one less
      rw [room, room]
      rcases List.mem_cons.mp hk with rfl | hk
      · rw [List.count_cons_self]
        omega
      · have hlt := ih hk
        omega

section

variable {answer : String → Except Error Record} {names : String → Prop} {J : Registry → Prop}

/-- **With enough room left the look-ahead decides about a record.** -/
theorem Registry.Lasting.recordGenerableF_gives (hJ : Registry.Lasting answer names J)
    (ha : Settled answer) {known : List String}
    (hk : ∀ n record, answer n = .ok record → n ∈ known) (limit : Nat) (budget : Nat)
    (chain : List String) {name : String} (hn : names name)
    (hroom : room limit chain known < budget) :
    Gives J (recordGenerableF limit budget chain name)
      (fun b => b = true ↔ Viable answer limit chain (.reference name))
      (Unresolved answer (.reference name)) := by
  -- induction on the budget, which stays above the room on the chain
  induction budget generalizing chain name with
  | zero => omega
  | succ budget ih =>
      rw [recordGenerableF]
      split
      · rename_i hl
        exact Gives.pure ⟨fun h => (by simp at h), fun hv => absurd hv (not_viable_of_atLimit hl)⟩
      · rename_i hl
        have hc : chain.count name < limit := by simpa [atLimit] using hl
        have hfetch : Gives J (Registry.fetch name)
            (fun record => answer name = .ok record) (Unresolved answer (.reference name)) :=
          (hJ.fetch_gives hn).mono_error fun e he => ⟨name, .reference_self, he⟩
        refine Gives.bind hfetch fun record hr => ?_
        rw [ha.name_eq hr]
        have hlt := room_cons_lt (hk name record hr) hc
        have hdecides : ∀ d ∈ record.fields.map (·.type), Decides answer J limit (name :: chain)
            (recordGenerableF limit budget (name :: chain)) (Unresolved answer (.reference name))
            d := by
          intro d hd other hw
          obtain ⟨f, hf, rfl⟩ := List.mem_map.mp hd
          have hother : names other := hJ.closed name other hn ⟨record, hr, f, hf, hw⟩
          refine (ih (name :: chain) hother (by omega)).mono_error ?_
          rintro e ⟨n, hn, he⟩
          exact ⟨n, (hn.of_within hw).of_field hr hf, he⟩
        refine (allGenerableWith_gives _ hdecides).mono (fun b hb => ?_) fun _ he => he
        rw [hb, viable_reference_iff hr, and_iff_right hc]
        simp

/-- The look-ahead decides whether a type has an end. -/
theorem Registry.Lasting.generable_gives (hJ : Registry.Lasting answer names J)
    (ha : Settled answer) (limit : Nat) (chain : List String) {d : Descriptor}
    (hd : d.Names names) :
    Gives J (generable limit chain d) (fun b => b = true ↔ Viable answer limit chain d)
      (Unresolved answer d) := by
  refine generableWith_gives d fun name hw r hr => ?_
  have hk : ∀ n record, answer n = .ok record → n ∈ r.knownNames := by
    intro n record hn
    exact Registry.mem_knownNames_of_answer (by rw [hJ.answers r hr]; exact hn)
  have hroom := Nat.lt_succ_of_le (room_le limit chain r.knownNames)
  refine ((hJ.recordGenerableF_gives ha hk limit _ chain (hd name hw) hroom).mono_error ?_) r hr
  exact fun e he => he.of_within hw

end

/-- **The look-ahead decides whether a type has an end.** -/
theorem generable_gives {answer : String → Except Error Record} (ha : Settled answer) (limit : Nat)
    (chain : List String) (d : Descriptor) :
    Gives (Answers answer) (generable limit chain d)
      (fun b => b = true ↔ Viable answer limit chain d) (Unresolved answer d) :=
  (Answers.lasting answer).generable_gives ha limit chain fun _ _ => trivial

end RecordModel
