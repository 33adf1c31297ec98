/-
**Generated values conform at every depth.**

Whether a type accepts a value does not depend on what is inside the instances of records in it.  A
value conforms deeply when, besides, every instance inside it has exactly the fields of its record,
in order and each with a value that its type accepts.  What is drawn conforms deeply.

Values that are given for fields of the outermost instance are taken as they are and reach nothing
else: with other values for the same fields the remaining ones would be drawn just so.

Main definitions:

* `Value.Complete` — the instances inside a value have the fields of their records;
* `Descriptor.AcceptsDeeply` — deep conformance;
* `SamePins` — values for the same fields.

Main results:

* `Drawn.acceptsDeeply` — what may be drawn for a checked type conforms deeply;
* `drawInstance_conforms_deeply` — **an instance has the given values, all others conform deeply,
  and the given ones reach no other field**.
-/

import RecordModel.Proofs.Drawn

set_option relaxedAutoImplicit false
set_option autoImplicit false

namespace RecordModel

open Stateful

/-! ### Deep conformance -/

/-- Whether there are no values inside the value. -/
def Value.isScalar : Value → Bool
  | .array _ => false
  | .map _ => false
  | .record _ => false
  | _ => true

/-- Every instance inside the value has exactly the fields of its record, in order and each with a
value that its type accepts. -/
inductive Value.Complete (answer : String → Except Error Record) : Value → Prop
  | scalar {v : Value} : v.isScalar = true → Complete answer v
  | array {vs : List Value} : (∀ v ∈ vs, Complete answer v) → Complete answer (.array vs)
  | map {entries : List (String × Value)} :
      (∀ e ∈ entries, Complete answer e.2) → Complete answer (.map entries)
  | record {i : Instance Value} {record : Record} :
      answer i.record = .ok record → Keyed.keys i.fields = record.fields.map (·.name) →
      (∀ p ∈ record.fields.zip i.fields, p.1.type.accepts p.2.2 = true) →
      (∀ p ∈ record.fields.zip i.fields, Complete answer p.2.2) →
      Complete answer (.record i)

/-- The type accepts the value, and so does every instance inside it with its fields. -/
def Descriptor.AcceptsDeeply (answer : String → Except Error Record) (d : Descriptor)
    (v : Value) : Prop :=
  d.accepts v = true ∧ v.Complete answer

theorem Primitive.isScalar_of_carries {kind : Primitive} {v : Value}
    (h : kind.carries v = true) : v.isScalar = true := by
  cases kind <;> cases v <;> simp_all [Primitive.carries, Value.isScalar]

theorem Logical.isScalar_of_carries {kind : Logical} {v : Value}
    (h : kind.carries v = true) : v.isScalar = true := by
  cases kind <;> cases v <;> simp_all [Logical.carries, Value.isScalar]

namespace Descriptor

theorem accepts_null (v : Value) : accepts null v = v.isNull := by
  cases v <;> simp [accepts, Primitive.accepts, Value.isNull]

theorem accepts_reference (name : String) (v : Value) :
    accepts (.reference name) v = true ↔ ∃ i : Instance Value, v = .record i ∧ i.record = name := by
  cases v <;> simp [accepts]

/-- A type accepts what one of its alternatives accepts. -/
theorem accepts_iff_alternatives (d : Descriptor) (v : Value) :
    d.accepts v = true ↔ ∃ m ∈ d.alternatives, m.accepts v = true := by
  fun_induction alternatives d with
  | case1 ms => rw [accepts_union, List.any_eq_true]
  | case2 inner ih =>
      rw [accepts_optional, Bool.or_eq_true, ih]
      constructor
      · rintro (hv | ⟨m, hm, hv⟩)
        · exact ⟨null, List.mem_cons_self .., (accepts_null v).trans hv⟩
        · by_cases hn : m.isNull = true
          · rw [(isNull_iff m).mp hn] at hv
            exact ⟨null, List.mem_cons_self .., hv⟩
          · exact ⟨m, List.mem_cons_of_mem _ (List.mem_filter.mpr ⟨hm, by simpa using hn⟩), hv⟩
      · rintro ⟨m, hm, hv⟩
        rcases List.mem_cons.mp hm with rfl | hm
        · exact Or.inl ((accepts_null v).symm.trans hv)
        · exact Or.inr ⟨m, (List.mem_filter.mp hm).1, hv⟩
  | case3 d => simp

end Descriptor

/-! ### Decimals without digits -/

/-- The type in which a decimal that has no digits is given one. -/
def Logical.withDigit : Logical → Logical
  | .decimal 0 0 => .decimal 1 0
  | kind => kind

theorem Logical.withDigit_of_ne {kind : Logical} (h : kind ≠ .decimal 0 0) :
    kind.withDigit = kind := by
  unfold withDigit
  split
  · exact absurd rfl h
  · rfl

/-- With a digit for decimals, a logical type accepts the values in its shape. -/
theorem Logical.withDigit_accepts {kind : Logical} {v : Value} (h : kind.carries v = true) :
    kind.withDigit.accepts v = true := by
  by_cases hk : kind = .decimal 0 0
  · -- the only number below one has a digit all the same
    subst hk
    change Logical.accepts (.decimal 1 0) v = true
    refine Logical.accepts_of_carries ?_ (by simp)
    cases v with
    | decimal d =>
        simp only [carries, Bool.and_eq_true, decide_eq_true_eq] at h ⊢
        exact ⟨⟨h.1.1, Nat.zero_le 1⟩, h.2.trans (by decide)⟩
    | _ => simp [carries] at h
  · rw [withDigit_of_ne hk]
    exact Logical.accepts_of_carries h hk

namespace Descriptor

mutual

/-- The type in which every decimal that has no digits is given one. -/
def withDigits : Descriptor → Descriptor
  | .logical kind => .logical kind.withDigit
  | .array items => .array (withDigits items)
  | .map values => .map (withDigits values)
  | .union members => .union (allWithDigits members)
  | .optional inner => .optional (withDigits inner)
  | d => d

/-- Some types with a digit for every decimal. -/
def allWithDigits : List Descriptor → List Descriptor
  | [] => []
  | m :: rest => withDigits m :: allWithDigits rest

end

theorem allWithDigits_eq_map (ms : List Descriptor) : allWithDigits ms = ms.map withDigits := by
  induction ms with
  | nil => rfl
  | cons m rest ih => rw [allWithDigits, ih, List.map_cons]

theorem isNull_withDigits (d : Descriptor) : d.withDigits.isNull = d.isNull := by
  cases d <;> simp [withDigits, isNull]

/-- The alternatives are given digits one by one. -/
theorem alternatives_withDigits (d : Descriptor) :
    d.withDigits.alternatives = d.alternatives.map withDigits := by
  fun_induction alternatives d with
  | case1 ms => rw [withDigits, alternatives, allWithDigits_eq_map]
  | case2 inner ih =>
      have hnull : (fun m : Descriptor => !m.isNull) ∘ withDigits = fun m => !m.isNull :=
        funext fun m => congrArg not (isNull_withDigits m)
      rw [withDigits, alternatives_optional, ih, List.filter_map, hnull, List.map_cons]
      rfl
  | case3 d hu ho => cases d <;> simp_all [withDigits, alternatives]

mutual

/-- Where every decimal has digits the type stays as it is. -/
theorem withDigits_eq_self (d : Descriptor) (h : ¬ Within (.logical (.decimal 0 0)) d) :
    d.withDigits = d := by
  cases d with
  | logical kind => rw [withDigits, Logical.withDigit_of_ne (fun hk => h (hk ▸ .refl))]
  | array items => rw [withDigits, withDigits_eq_self items fun hw => h (.items hw)]
  | map values => rw [withDigits, withDigits_eq_self values fun hw => h (.values hw)]
  | union members =>
      rw [withDigits, allWithDigits_eq_self members fun m hm hw => h (.member hm hw)]
  | optional inner => rw [withDigits, withDigits_eq_self inner fun hw => h (.inner hw)]
  | _ => rfl

theorem allWithDigits_eq_self (ms : List Descriptor)
    (h : ∀ m ∈ ms, ¬ Within (.logical (.decimal 0 0)) m) : allWithDigits ms = ms := by
  cases ms with
  | nil => rfl
  | cons m rest =>
      rw [allWithDigits, withDigits_eq_self m (h m (List.mem_cons_self ..)),
        allWithDigits_eq_self rest fun m' hm => h m' (List.mem_cons_of_mem _ hm)]

end

theorem Checked.withDigits_eq {d : Descriptor} (h : d.Checked) : d.withDigits = d := by
  refine withDigits_eq_self d fun hw => ?_
  obtain ⟨hpos, -⟩ := h _ hw
  omega

theorem accepts_of_carries {kind : Logical} {v : Value} (h : kind.carries v = true)
    (hd : (Descriptor.logical kind).Checked) : (Descriptor.logical kind).accepts v = true := by
  rw [← hd.withDigits_eq, withDigits, accepts]
  exact Logical.withDigit_accepts h

end Descriptor

/-! ### Drawn values -/

/-- **What may be drawn for a type conforms deeply, with a digit for every decimal.** -/
theorem Drawn.acceptsDeeply_withDigits {answer : String → Except Error Record}
    (ha : Settled answer) {s : Settings} {levels : Nat} {chain : List String} {d : Descriptor}
    {v : Value} (h : Drawn answer s levels chain d v) : d.withDigits.AcceptsDeeply answer v := by
  induction h with
  | primitive hc =>
      refine ⟨?_, .scalar (Primitive.isScalar_of_carries hc)⟩
      rw [Descriptor.withDigits, Descriptor.accepts]
      · exact Primitive.accepts_of_carries hc
      all_goals simp
  | logical hc =>
      refine ⟨?_, .scalar (Logical.isScalar_of_carries hc)⟩
      rw [Descriptor.withDigits, Descriptor.accepts]
      exact Logical.withDigit_accepts hc
  | fixed hlen => exact ⟨by simp [Descriptor.withDigits, Descriptor.accepts, hlen], .scalar rfl⟩
  | enum hs => exact ⟨by simpa [Descriptor.withDigits, Descriptor.accepts] using hs, .scalar rfl⟩
  | items _ _ _ _ ih =>
      refine ⟨?_, .array fun v hv => (ih v hv).2⟩
      rw [Descriptor.withDigits, Descriptor.accepts_array, List.all_eq_true]
      exact fun v hv => (ih v hv).1
  | noItems _ =>
      exact ⟨by simp [Descriptor.withDigits, Descriptor.accepts_array], .array (by simp)⟩
  | values _ _ _ _ _ ih =>
      refine ⟨?_, .map fun e he => (ih e he).2⟩
      rw [Descriptor.withDigits, Descriptor.accepts_map, List.all_eq_true]
      exact fun e he => (ih e he).1
  | noValues _ =>
      exact ⟨by simp [Descriptor.withDigits, Descriptor.accepts_map], .map (by simp)⟩
  | absent _ hnull _ =>
      refine ⟨?_, .scalar rfl⟩
      rw [Descriptor.accepts_iff_alternatives, Descriptor.alternatives_withDigits]
      exact ⟨_, List.mem_map_of_mem hnull, Descriptor.accepts_null _⟩
  | member _ hm _ _ _ _ ih =>
      refine ⟨?_, ih.2⟩
      rw [Descriptor.accepts_iff_alternatives, Descriptor.alternatives_withDigits]
      exact ⟨_, List.mem_map_of_mem hm, ih.1⟩
  | record _ hr hkeys _ ih =>
      -- the types of the fields of a record are checked
      have hfield := fun p hp =>
        (ha.checked hr _ (List.of_mem_zip hp).1).withDigits_eq ▸ ih p hp
      refine ⟨by simp [Descriptor.withDigits, Descriptor.accepts], ?_⟩
      exact .record hr hkeys (fun p hp => (hfield p hp).1) fun p hp => (hfield p hp).2

/-- **What may be drawn for a checked type conforms deeply.** -/
theorem Drawn.acceptsDeeply {answer : String → Except Error Record} (ha : Settled answer)
    {s : Settings} {levels : Nat} {chain : List String} {d : Descriptor} {v : Value}
    (h : Drawn answer s levels chain d v) (hd : d.Checked) : d.AcceptsDeeply answer v :=
  hd.withDigits_eq ▸ h.acceptsDeeply_withDigits ha

/-! ### Given values -/

/-- The two give values to the same names. -/
def SamePins (given given' : List (String × Value)) : Prop :=
  ∀ k, (Keyed.get? k given').isSome = (Keyed.get? k given).isSome

theorem SamePins.none_iff {given given' : List (String × Value)} (h : SamePins given given')
    (k : String) : Keyed.get? k given' = none ↔ Keyed.get? k given = none := by
  rw [← Option.isNone_iff_eq_none, ← Option.isNone_iff_eq_none, ← Option.not_isSome,
    ← Option.not_isSome, h k]

theorem SamePins.mem_keys_iff {given given' : List (String × Value)} (h : SamePins given given')
    (k : String) : k ∈ Keyed.keys given' ↔ k ∈ Keyed.keys given := by
  have hk := h.none_iff k
  rw [Keyed.get?_eq_none_iff, Keyed.get?_eq_none_iff] at hk
  exact not_iff_not.mp hk

section

variable {σ : Type} {given given' : List (String × Value)}

/-- The fields that are not given a value are drawn in the same way. -/
theorem entries_of_samePins (h : SamePins given given') {value : Field → GeneratorM σ Value}
    {fields : List Field} {st t : GeneratorState σ} {entries : List (String × Value)}
    (hrun : (fields.mapM (Generator.entryWith value given)).run st = (.ok entries, t)) :
    ∃ entries', (fields.mapM (Generator.entryWith value given')).run st = (.ok entries', t) ∧
      ∀ k, Keyed.get? k given = none → Keyed.get? k entries' = Keyed.get? k entries := by
  induction fields generalizing st entries with
  | nil =>
      rw [List.mapM_nil, run_pure] at hrun
      cases hrun
      exact ⟨[], by rw [List.mapM_nil, run_pure], fun _ _ => rfl⟩
  | cons f rest ih =>
      rw [List.mapM_cons] at hrun
      obtain ⟨e, u, he, hrun⟩ := run_bind_eq_ok.mp hrun
      obtain ⟨es, w, hes, hrun⟩ := run_bind_eq_ok.mp hrun
      cases hrun
      obtain ⟨es', hes', hsame⟩ := ih hes
      have hrun' (e' : String × Value)
          (he' : (Generator.entryWith value given' f).run st = (.ok e', u)) :
          ((f :: rest).mapM (Generator.entryWith value given')).run st =
            (.ok (e' :: es'), t) := by
        rw [List.mapM_cons]
        refine run_bind_eq_ok.mpr ⟨e', u, he', ?_⟩
        exact run_bind_eq_ok.mpr ⟨es', t, hes', rfl⟩
      cases hg : Keyed.get? f.name given with
      | none =>
          have hg' := (h.none_iff f.name).mpr hg
          rw [Generator.entryWith, hg] at he
          refine ⟨e :: es', hrun' e ?_, fun k hk => ?_⟩
          · rw [Generator.entryWith, hg']
            exact he
          · rw [Keyed.get?_cons, Keyed.get?_cons, hsame k hk]
      | some v =>
          -- the state stays as it is in both runs
          rw [Generator.entryWith, hg] at he
          cases he
          obtain ⟨v', hg'⟩ := Option.isSome_iff_exists.mp ((h f.name).trans (by rw [hg]; rfl))
          refine ⟨(f.name, v') :: es', hrun' _ ?_, fun k hk => ?_⟩
          · rw [Generator.entryWith, hg']
            rfl
          · have hne : f.name ≠ k := by
              rintro rfl
              rw [hg] at hk
              cases hk
            rw [Keyed.get?_cons, Keyed.get?_cons, if_neg hne, if_neg hne, hsame k hk]

/-- With other values for the same fields the remaining fields are drawn in the same way. -/
theorem drawInstance_of_samePins [RandomSource σ] (h : SamePins given given') {s : Settings}
    {name : String} {st t : GeneratorState σ} {i : Instance Value}
    (hrun : (drawInstance s name given).run st = (.ok i, t)) :
    ∃ i', (drawInstance s name given').run st = (.ok i', t) ∧
      ∀ k, Keyed.get? k given = none → i'.get? k = i.get? k := by
  obtain ⟨_, u, hsettings, hrun⟩ := run_bind_eq_ok.mp hrun
  obtain ⟨record, w, hrecord, hrun⟩ := run_bind_eq_ok.mp hrun
  dsimp only at hrun
  split at hrun
  · cases hrun
  · rename_i hknown
    obtain ⟨owner, x, howner, hrun⟩ := run_bind_eq_ok.mp hrun
    obtain ⟨entries, y, hentries, hrun⟩ := run_bind_eq_ok.mp hrun
    cases hrun
    obtain ⟨entries', hentries', hsame⟩ := entries_of_samePins h hentries
    have hnil : ((Keyed.keys given').filter fun k => (record.field? k).isNone) = [] := by
      rw [List.filter_eq_nil_iff]
      intro k hk
      rw [h.mem_keys_iff] at hk
      exact List.filter_eq_nil_iff.mp (leastName?_eq_none_iff.mp hknown) k hk
    refine ⟨⟨owner.name, entries'⟩, ?_, hsame⟩
    refine run_bind_eq_ok.mpr ⟨_, u, hsettings, ?_⟩
    refine run_bind_eq_ok.mpr ⟨record, w, hrecord, ?_⟩
    dsimp only
    rw [hnil, leastName?_eq_none_iff.mpr rfl]
    refine run_bind_eq_ok.mpr ⟨owner, x, howner, ?_⟩
    exact run_bind_eq_ok.mpr ⟨entries', t, hentries', rfl⟩

end

/-! ### Instances -/

/-- **An instance has the given values, all others conform deeply, and the given ones reach no other
field**: it has the fields of its record in order, a given value stands in its field as it is, the
type of any other field accepts its value at every depth, and other values for the same fields would
have left the rest as it is. -/
theorem drawInstance_conforms_deeply {σ : Type} [RandomSource σ] {r : Registry} (hr : r.Reached)
    {s : Settings} {name : String} {given : List (String × Value)} {source : σ}
    {i : Instance Value} {t : GeneratorState σ}
    (hrun : (drawInstance s name given).run ⟨r, source⟩ = (.ok i, t)) :
    i.record = name ∧
      (∃ record, r.answer name = .ok record ∧
        Fills given record.fields i.fields fun f v => f.type.AcceptsDeeply r.answer v) ∧
      ∀ given', SamePins given given' →
        ∃ i', (drawInstance s name given').run ⟨r, source⟩ = (.ok i', t) ∧
          ∀ k, Keyed.get? k given = none → i'.get? k = i.get? k := by
  have ha := hr.settled
  have hgives := (drawInstance_gives ha s name given).of_run_ok (Generator.knows_self r source) hrun
  obtain ⟨-, -, record, hrecord, hname, hfills⟩ := hgives
  refine ⟨hname, ⟨record, hrecord, hfills.names, hfills.pinned, fun p hp hg => ?_⟩,
    fun given' h => drawInstance_of_samePins h hrun⟩
  exact (hfills.drawn p hp hg).acceptsDeeply ha (ha.checked hrecord _ (List.of_mem_zip hp).1)

/-- With a given label the next link is absent, since the record may not stand in itself. -/
theorem link_conforms_deeply :
    linkRegistry.Reached ∧ ∃ t : GeneratorState SplitMix,
      (drawInstance {} "Link" [("label", .int32 7)]).run ⟨linkRegistry, ⟨[], 0⟩⟩ =
        (.ok ⟨"Link", [("label", .int32 7), ("next", .null)]⟩, t) ∧
      ∃ record, linkRegistry.answer "Link" = .ok record ∧
        Fills [("label", .int32 7)] record.fields [("label", .int32 7), ("next", .null)]
          fun f v => f.type.AcceptsDeeply linkRegistry.answer v := by
  have hrun : ∃ t : GeneratorState SplitMix,
      (drawInstance {} "Link" [("label", .int32 7)]).run ⟨linkRegistry, ⟨[], 0⟩⟩ =
        (.ok ⟨"Link", [("label", .int32 7), ("next", .null)]⟩, t) :=
    ⟨_, by with_unfolding_all rfl⟩
  obtain ⟨t, hrun⟩ := hrun
  have h := drawInstance_conforms_deeply linkRegistry_reached hrun
  exact ⟨linkRegistry_reached, t, hrun, h.2.1⟩

end RecordModel
