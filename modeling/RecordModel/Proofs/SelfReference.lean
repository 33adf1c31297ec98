/-
**Generation and self-reference.**

A value is admissible after a chain of records when it conforms deeply and no record stands on a
path of nested instances, taken together with the chain, more often than the limit.  A type has an
end exactly where such values can be looked for: an admissible value shows that the type has an end,
and what is drawn is admissible.  Hence the limit makes a generation fail only when it has to.

Main definitions:

* `Value.HasPath` — the records on a path of nested instances;
* `Descriptor.Admits` — admissible values;
* `Settings.InCalendar` — settings with years of the calendar.

Main results:

* `viable_iff_exists_admits` — **the look-ahead is right about admissible values**;
* `Drawn.admits` — what is drawn is admissible;
* `Stuck.tooDeep_of_viable` — where a type has an end, nothing but the nesting is an error;
* `drawInstance_self_reference` — **with an admissible value for every field that is not given one,
  the nesting is the only error of a generation; with a field that has none, none succeeds**.
-/

import RecordModel.Proofs.DeepValues

set_option relaxedAutoImplicit false
set_option autoImplicit false

namespace RecordModel

open Stateful

/-! ### Admissible values -/

/-- The records on a path of nested instances inside a value, the outermost one first; the path may
stop anywhere. -/
inductive Value.HasPath : Value → List String → Prop
  | stop {v : Value} : HasPath v []
  | item {vs : List Value} {v : Value} {p : List String} :
      v ∈ vs → HasPath v p → HasPath (.array vs) p
  | entry {entries : List (String × Value)} {e : String × Value} {p : List String} :
      e ∈ entries → HasPath e.2 p → HasPath (.map entries) p
  | record {i : Instance Value} : HasPath (.record i) [i.record]
  | field {i : Instance Value} {e : String × Value} {p : List String} :
      e ∈ i.fields → HasPath e.2 p → HasPath (.record i) (i.record :: p)

/-- On no path inside the value, behind the chain, a record stands more often than the limit. -/
def Value.KeepsTo (limit : Nat) (chain : List String) (v : Value) : Prop :=
  ∀ p, v.HasPath p → ∀ name, (chain ++ p).count name ≤ limit

/-- The values of a type that are admissible after a chain. -/
def Descriptor.Admits (answer : String → Except Error Record) (limit : Nat) (chain : List String)
    (d : Descriptor) (v : Value) : Prop :=
  d.AcceptsDeeply answer v ∧ v.KeepsTo limit chain

theorem Value.HasPath.eq_nil {v : Value} {p : List String} (h : v.HasPath p)
    (hs : v.isScalar = true) : p = [] := by
  cases h with
  | stop => rfl
  | _ => simp [Value.isScalar] at hs

theorem Value.keepsTo_of_isScalar {limit : Nat} {chain : List String} {v : Value}
    (hs : v.isScalar = true) (hc : ∀ name, chain.count name ≤ limit) : v.KeepsTo limit chain := by
  intro p hp name
  rw [hp.eq_nil hs, List.append_nil]
  exact hc name

theorem Value.keepsTo_array {limit : Nat} {chain : List String} {vs : List Value}
    (hc : ∀ name, chain.count name ≤ limit) (h : ∀ v ∈ vs, v.KeepsTo limit chain) :
    (Value.array vs).KeepsTo limit chain := by
  rintro p (_ | ⟨hv, hp⟩) name
  · simpa using hc name
  · exact h _ hv p hp name

theorem Value.keepsTo_map {limit : Nat} {chain : List String} {entries : List (String × Value)}
    (hc : ∀ name, chain.count name ≤ limit) (h : ∀ e ∈ entries, e.2.KeepsTo limit chain) :
    (Value.map entries).KeepsTo limit chain := by
  rintro p (_ | _ | ⟨he, hp⟩) name
  · simpa using hc name
  · exact h _ he p hp name

/-- A path in an instance is kept to the limit when those in its fields are, behind the record. -/
theorem Value.keepsTo_record {limit : Nat} {chain : List String} {i : Instance Value}
    (hc : ∀ name, (i.record :: chain).count name ≤ limit)
    (h : ∀ e ∈ i.fields, e.2.KeepsTo limit (i.record :: chain)) :
    (Value.record i).KeepsTo limit chain := by
  intro p hp name
  -- the count does not mind whether the record stands behind the chain or before it
  cases hp with
  | stop =>
      rw [List.append_nil]
      exact List.count_le_count_cons.trans (hc name)
  | record =>
      rw [List.perm_middle.count_eq, List.append_nil]
      exact hc name
  | field he hp =>
      rw [List.perm_middle.count_eq]
      exact h _ he _ hp name

theorem Value.KeepsTo.of_field {limit : Nat} {chain : List String} {i : Instance Value}
    (h : (Value.record i).KeepsTo limit chain) {e : String × Value} (he : e ∈ i.fields) :
    e.2.KeepsTo limit (i.record :: chain) := by
  intro p hp name
  have hcount := h _ (.field he hp) name
  rwa [List.perm_middle.count_eq] at hcount

section

variable {answer : String → Except Error Record} {limit : Nat} {chain : List String}

/-! ### An admissible value shows an end -/

/-- A type that accepts a value has an end when the references that accept it have one. -/
theorem viable_of_accepts {v : Value}
    (h : ∀ name, Descriptor.accepts (.reference name) v = true →
      Viable answer limit chain (.reference name)) (d : Descriptor) (hd : d.accepts v = true) :
    Viable answer limit chain d := by
  induction d using Descriptor.induction_alternatives with
  | choice d ha ih =>
      obtain ⟨m, hm, hv⟩ := (Descriptor.accepts_iff_alternatives d v).mp hd
      exact (viable_iff_alternatives ha).mpr ⟨m, hm, ih m hm hv⟩
  | reference name => exact h name hd
  | _ => exact .terminal rfl

/-- A type that accepts a value that is not an instance has an end. -/
theorem viable_of_accepts_plain {v : Value} (hv : ∀ i, v ≠ .record i) {d : Descriptor}
    (hd : d.accepts v = true) : Viable answer limit chain d := by
  refine viable_of_accepts (fun name hname => ?_) d hd
  obtain ⟨i, hi, -⟩ := (Descriptor.accepts_reference name _).mp hname
  exact absurd hi (hv i)

/-- What accepts a value inside which every instance is complete has an end, if the value is kept
to the limit. -/
theorem Value.Complete.viable {v : Value} (hv : v.Complete answer) (hk : v.KeepsTo limit chain)
    {d : Descriptor} (hd : d.accepts v = true) : Viable answer limit chain d := by
  -- induction on the value, the only case of which that a reference accepts is an instance
  induction hv generalizing chain d with
  | scalar hs =>
      refine viable_of_accepts_plain (fun i => ?_) hd
      rintro rfl
      simp [Value.isScalar] at hs
  | array _ _ => exact viable_of_accepts_plain (by simp) hd
  | map _ _ => exact viable_of_accepts_plain (by simp) hd
  | @record i record hr hkeys haccepts _ ih =>
      refine viable_of_accepts (fun name hname => ?_) d hd
      obtain ⟨_, ⟨⟩, rfl⟩ := (Descriptor.accepts_reference name _).mp hname
      refine (viable_reference_iff hr).mpr ⟨?_, fun f hf => ?_⟩
      · have hcount := hk _ .record i.record
        rw [List.count_append, List.count_singleton_self] at hcount
        omega
      · obtain ⟨e, he⟩ := exists_entry hkeys hf
        exact ih _ he (hk.of_field (List.of_mem_zip he).2) (haccepts _ he)

/-- **A type with an admissible value has an end.** -/
theorem Descriptor.Admits.viable {d : Descriptor} {v : Value} (h : d.Admits answer limit chain v) :
    Viable answer limit chain d :=
  h.1.2.viable h.2 h.1.1

/-! ### An end shows an admissible value -/

/-- A midnight, for values that need one. -/
def midnight : TimeOfDay := ⟨0, 0, by decide, by decide, by decide⟩

theorem exists_primitive (kind : Primitive) : ∃ v, kind.carries v = true := by
  cases kind with
  | boolean => exact ⟨.boolean false, rfl⟩
  | int32 => exact ⟨.int32 0, rfl⟩
  | int64 => exact ⟨.int64 0, rfl⟩
  | float32 => exact ⟨.float32 ⟨0⟩, rfl⟩
  | float64 => exact ⟨.float64 ⟨0⟩, rfl⟩
  | bytes => exact ⟨.bytes [], rfl⟩
  | string => exact ⟨.string "", rfl⟩
  | null => exact ⟨.null, rfl⟩

theorem exists_logical {kind : Logical} (hd : (Descriptor.logical kind).Checked) :
    ∃ v, kind.carries v = true := by
  have day : Date := ⟨0, by decide⟩
  cases kind with
  | date => exact ⟨.date day, rfl⟩
  | timeMillis => exact ⟨.timeMillis midnight, rfl⟩
  | timeMicros => exact ⟨.timeMicros midnight, rfl⟩
  | timestampMillis => exact ⟨.timestampMillis ⟨day, midnight⟩, rfl⟩
  | timestampMicros => exact ⟨.timestampMicros ⟨day, midnight⟩, rfl⟩
  | uuid => exact ⟨.uuid ⟨0⟩, rfl⟩
  | decimal precision scale =>
      have hpos := pow2_pos 127
      obtain ⟨-, hle, -⟩ := hd.sound
      refine ⟨.decimal ⟨0, scale, by omega⟩, ?_⟩
      simp [Logical.carries, hle, pow10_pos]

/-- A type that is neither a union nor a reference has an admissible value. -/
theorem exists_admits_of_isTerminal {d : Descriptor} (ht : d.isTerminal = true) (hd : d.Checked)
    (hc : ∀ name, chain.count name ≤ limit) : ∃ v, d.Admits answer limit chain v := by
  have hscalar {v : Value} (hv : d.accepts v = true) (hs : v.isScalar = true) :
      ∃ v, d.Admits answer limit chain v :=
    ⟨v, ⟨hv, .scalar hs⟩, Value.keepsTo_of_isScalar hs hc⟩
  cases d with
  | primitive kind =>
      obtain ⟨v, hv⟩ := exists_primitive kind
      refine hscalar (v := v) ?_ (Primitive.isScalar_of_carries hv)
      rw [Descriptor.accepts]
      exact Primitive.accepts_of_carries hv
  | logical kind =>
      obtain ⟨v, hv⟩ := exists_logical hd
      refine hscalar (v := v) ?_ (Logical.isScalar_of_carries hv)
      exact Descriptor.accepts_of_carries hv hd
  | fixed type =>
      refine hscalar (v := .fixed (List.replicate type.size 0)) ?_ rfl
      simp [Descriptor.accepts]
  | enum type =>
      obtain ⟨symbol, hs⟩ := List.exists_mem_of_ne_nil _ hd.sound.1
      refine hscalar (v := .enum symbol) ?_ rfl
      simpa [Descriptor.accepts] using hs
  | array items =>
      refine ⟨.array [], ⟨by simp [Descriptor.accepts_array], .array (by simp)⟩, ?_⟩
      exact Value.keepsTo_array hc (by simp)
  | map values =>
      refine ⟨.map [], ⟨by simp [Descriptor.accepts_map], .map (by simp)⟩, ?_⟩
      exact Value.keepsTo_map hc (by simp)
  | optional inner => exact hscalar (v := .null) (by simp [Descriptor.accepts, Value.isNull]) rfl
  | _ => simp [Descriptor.isTerminal] at ht

theorem count_cons_le {name : String} (hlt : chain.count name < limit)
    (hc : ∀ other, chain.count other ≤ limit) (other : String) :
    (name :: chain).count other ≤ limit := by
  rw [List.count_cons]
  split
  · rename_i h
    rw [← eq_of_beq h]
    omega
  · exact hc other

/-- **A type with an end has an admissible value.** -/
theorem Viable.exists_admits (ha : Settled answer) {d : Descriptor}
    (h : Viable answer limit chain d) (hd : d.Checked) (hc : ∀ name, chain.count name ≤ limit) :
    ∃ v, d.Admits answer limit chain v := by
  induction h with
  | terminal ht => exact exists_admits_of_isTerminal ht hd hc
  | member hm _ ih =>
      obtain ⟨v, ⟨hv, hcomplete⟩, hk⟩ := ih (hd.within (.member hm .refl)) hc
      refine ⟨v, ⟨?_, hcomplete⟩, hk⟩
      rw [Descriptor.accepts_union, List.any_eq_true]
      exact ⟨_, hm, hv⟩
  | @record chain name record hlt hr _ ih =>
      have hc' := count_cons_le hlt hc
      have hfield : ∀ f, ∃ v, f ∈ record.fields →
          f.type.Admits answer limit (name :: chain) v := by
        intro f
        by_cases hf : f ∈ record.fields
        · obtain ⟨v, hv⟩ := ih f hf (ha.checked hr f hf) hc'
          exact ⟨v, fun _ => hv⟩
        · exact ⟨.null, fun h => absurd h hf⟩
      choose value hvalue using hfield
      -- the instance has these values in the order of the fields
      let entry (f : Field) : String × Value := (f.name, value f)
      have hzip : ∀ p ∈ record.fields.zip (record.fields.map entry),
          p.1 ∈ record.fields ∧ p.2 = entry p.1 := by
        intro p hp
        refine ⟨(List.of_mem_zip hp).1, ?_⟩
        obtain ⟨i, hi, rfl⟩ := List.getElem_of_mem hp
        rw [List.getElem_zip, List.getElem_map]
      refine ⟨.record ⟨name, record.fields.map entry⟩, ⟨?_, ?_⟩, ?_⟩
      · exact (Descriptor.accepts_reference name _).mpr ⟨_, rfl, rfl⟩
      · refine .record hr (by simp [Keyed.keys, entry]) (fun p hp => ?_) fun p hp => ?_
        · rw [(hzip p hp).2]
          exact (hvalue p.1 (hzip p hp).1).1.1
        · rw [(hzip p hp).2]
          exact (hvalue p.1 (hzip p hp).1).1.2
      · refine Value.keepsTo_record hc' fun e he => ?_
        obtain ⟨f, hf, rfl⟩ := List.mem_map.mp he
        exact (hvalue f hf).2

/-- **The look-ahead is right about admissible values**: along a chain that keeps to the limit, a
checked type has an end exactly when it has an admissible value. -/
theorem viable_iff_exists_admits (ha : Settled answer) {d : Descriptor} (hd : d.Checked)
    (hc : ∀ name, chain.count name ≤ limit) :
    Viable answer limit chain d ↔ ∃ v, d.Admits answer limit chain v :=
  ⟨fun h => h.exists_admits ha hd hc, fun ⟨_, h⟩ => h.viable⟩

/-! ### Drawn values are admissible -/

/-- What is drawn is kept to the limit when the chain is. -/
theorem Drawn.keepsTo {s : Settings} {levels : Nat} {d : Descriptor} {v : Value}
    (h : Drawn answer s levels chain d v)
    (hc : ∀ name, chain.count name ≤ s.selfReferenceDepth) :
    v.KeepsTo s.selfReferenceDepth chain := by
  induction h with
  | primitive hv => exact Value.keepsTo_of_isScalar (Primitive.isScalar_of_carries hv) hc
  | logical hv => exact Value.keepsTo_of_isScalar (Logical.isScalar_of_carries hv) hc
  | fixed _ => exact Value.keepsTo_of_isScalar rfl hc
  | enum _ => exact Value.keepsTo_of_isScalar rfl hc
  | items _ _ _ _ ih => exact Value.keepsTo_array hc fun v hv => ih v hv hc
  | noItems _ => exact Value.keepsTo_array hc (by simp)
  | values _ _ _ _ _ ih => exact Value.keepsTo_map hc fun e he => ih e he hc
  | noValues _ => exact Value.keepsTo_map hc (by simp)
  | absent _ _ _ => exact Value.keepsTo_of_isScalar rfl hc
  | member _ _ _ _ _ _ ih => exact ih hc
  | record hviable hr hkeys _ ih =>
      obtain ⟨hlt, -⟩ := (viable_reference_iff hr).mp hviable
      have hc' := count_cons_le hlt hc
      refine Value.keepsTo_record hc' fun e he => ?_
      obtain ⟨f, hf⟩ := exists_field hkeys he
      exact ih _ hf hc'

/-- **What is drawn is admissible.** -/
theorem Drawn.admits (ha : Settled answer) {s : Settings} {levels : Nat} {d : Descriptor}
    {v : Value} (h : Drawn answer s levels chain d v) (hd : d.Checked)
    (hc : ∀ name, chain.count name ≤ s.selfReferenceDepth) :
    d.Admits answer s.selfReferenceDepth chain v :=
  ⟨h.acceptsDeeply ha hd, h.keepsTo hc⟩

/-! ### What is left to go wrong -/

/-- Every record that the type leads to is there. -/
def Descriptor.Resolves (answer : String → Except Error Record) (d : Descriptor) : Prop :=
  ∀ name, d.Reaches answer name → ∃ record, answer name = .ok record

/-- The first and the last year lie in the calendar. -/
def Settings.InCalendar (s : Settings) : Prop :=
  (Date.ofCivil? s.startYear 1 1).isSome ∧ (Date.ofCivil? s.endYear 12 31).isSome

/-- The failure is that types are nested too deep, or a draw broke down. -/
def TooDeepOrBroken (s : Settings) (e : Failure) : Prop :=
  (∃ position : Generator.Position, e = position.failure (.nestingTooDeep s.nestingDepth)) ∨
    ∃ b, e = .breakdown b

/-- With years of the calendar nothing goes wrong with a logical type that is checked. -/
theorem not_logicalFault {s : Settings} (hs : s.InCalendar) {kind : Logical}
    {fault : GenerationFault} (hd : (Descriptor.logical kind).Checked) :
    ¬ LogicalFault s kind fault := by
  intro h
  cases h with
  | startYear _ hn => simpa [hn] using hs.1
  | endYear _ hn => simpa [hn] using hs.2
  | scale hlt =>
      obtain ⟨-, hle, -⟩ := hd.sound
      omega
  | precision hlt =>
      obtain ⟨-, -, hle⟩ := hd.sound
      omega

/-- **Where a type has an end, nothing but the nesting is an error**, if the type is checked, all
records that it leads to are there and the years lie in the calendar. -/
theorem Stuck.tooDeep_of_viable (ha : Settled answer) {s : Settings} (hs : s.InCalendar)
    {levels : Nat} {position : Generator.Position} {d : Descriptor} {e : Failure}
    (h : Stuck answer s levels chain position d e) (hd : d.Checked) (hr : d.Resolves answer)
    (hv : Viable answer s.selfReferenceDepth chain d) : TooDeepOrBroken s e := by
  induction h with
  | tooDeep => exact Or.inl ⟨_, rfl⟩
  | noRoom _ => exact Or.inr ⟨_, rfl⟩
  | logical hf => exact absurd hf (not_logicalFault hs hd)
  | noSymbols hn => exact absurd hn hd.sound.1
  | unresolved he =>
      obtain ⟨name, hreach, he⟩ := he
      obtain ⟨record, hok⟩ := hr name hreach
      rw [hok] at he
      cases he
  | noMember ha' hn =>
      obtain ⟨m, hm, hv⟩ := (viable_iff_alternatives ha').mp hv
      exact absurd hv (hn m hm)
  | noTerminalCase hn => exact absurd hv hn
  | items hv' _ ih =>
      refine ih (hd.within (.items .refl)) (fun name hreach => ?_) hv'
      exact hr name (hreach.of_within (.items .refl))
  | values hv' _ ih =>
      refine ih (hd.within (.values .refl)) (fun name hreach => ?_) hv'
      exact hr name (hreach.of_within (.values .refl))
  | member _ hm _ hv' _ ih =>
      refine ih (hd.of_mem_alternatives _ hm) (fun name hreach => ?_) hv'
      exact hr name (hreach.of_mem_alternatives hm)
  | field _ hrecord hf _ ih =>
      obtain ⟨-, hfields⟩ := (viable_reference_iff hrecord).mp hv
      refine ih (ha.checked hrecord _ hf) (fun name hreach => ?_) (hfields _ hf)
      exact hr name (hreach.of_field hrecord hf)

end

/-! ### Generation -/

theorem Settings.Valid.selfReferenceDepth_pos {s : Settings} (h : s.Valid) :
    0 < s.selfReferenceDepth := by
  refine Nat.pos_of_ne_zero fun h0 => ?_
  rw [Settings.Valid, Settings.problem?, if_pos h0] at h
  cases h

/-- **With an admissible value for every field that is not given one, the nesting is the only error
of a generation; with a field that has none, no generation succeeds.** -/
theorem drawInstance_self_reference {σ : Type} [RandomSource σ] {r : Registry} (hr : r.Reached)
    {s : Settings} (hs : s.Valid) (hyears : s.InCalendar) {name : String} {record : Record}
    (hrecord : r.answer name = .ok record)
    (hresolve : ∀ other, Reachable r.answer name other → ∃ rec, r.answer other = .ok rec)
    {given : List (String × Value)}
    (hgiven : ∀ k ∈ Keyed.keys given, (record.field? k).isSome) :
    ((∀ f ∈ record.fields, Keyed.get? f.name given = none →
        ∃ v, f.type.Admits r.answer s.selfReferenceDepth [name] v) →
      ∀ (source : σ) (t : GeneratorState σ) (e : Error),
        (drawInstance s name given).run ⟨r, source⟩ = (.error (.error e), t) →
        ∃ owner field, e = .generation owner field (.nestingTooDeep s.nestingDepth)) ∧
    ((∃ f ∈ record.fields, Keyed.get? f.name given = none ∧
        ∀ v, ¬ f.type.Admits r.answer s.selfReferenceDepth [name] v) →
      ∀ (source : σ) (t : GeneratorState σ) (i : Instance Value),
        (drawInstance s name given).run ⟨r, source⟩ ≠ (.ok i, t)) := by
  have ha := hr.settled
  constructor
  · intro hadmits source t e hrun
    have herror := (drawInstance_gives ha s name given).of_run_error
      (Generator.knows_self r source) hrun
    obtain ⟨-, hno⟩ := herror
    cases hno with
    | settings hp => exact absurd (hs.symm.trans hp) (by simp)
    | unresolved he => exact absurd (hrecord.symm.trans he) (by simp)
    | unknownOverride hrecord' hk hn =>
        cases hrecord.symm.trans hrecord'
        simpa [hn] using hgiven _ hk
    | field hrecord' hf hg hstuck =>
        cases hrecord.symm.trans hrecord'
        obtain ⟨v, hv⟩ := hadmits _ hf hg
        have hresolves := fun other hreach =>
          hresolve other (Descriptor.Reaches.of_field hreach hrecord hf).reachable
        rcases hstuck.tooDeep_of_viable ha hyears (ha.checked hrecord _ hf) hresolves hv.viable with
          ⟨position, he⟩ | ⟨b, hb⟩
        · exact ⟨position.record, position.field, Failure.error.inj he⟩
        · cases hb
  · rintro ⟨f, hf, hg, hnone⟩ source t i hrun
    obtain ⟨-, -, record', hrecord', hname, hfills⟩ :=
      (drawInstance_gives ha s name given).of_run_ok (Generator.knows_self r source) hrun
    cases hrecord.symm.trans hrecord'
    obtain ⟨e, he⟩ := exists_entry hfills.names hf
    -- the record itself is on the chain, and the settings allow that
    have hcount : ∀ other, [name].count other ≤ s.selfReferenceDepth := by
      intro other
      have hpos := hs.selfReferenceDepth_pos
      have hle : [name].count other ≤ 1 := List.count_le_length
      omega
    exact hnone e.2 ((hfills.drawn _ he hg).admits ha (ha.checked hrecord f hf) hcount)

/-- The nesting is the only error of a generation of links. -/
theorem link_self_reference :
    Settings.Valid {} ∧ Settings.InCalendar {} ∧
      ∀ (source : SplitMix) (t : GeneratorState SplitMix) (e : Error),
        (drawInstance {} "Link" []).run ⟨linkRegistry, source⟩ = (.error (.error e), t) →
        ∃ owner field, e = .generation owner field (.nestingTooDeep 32) := by
  have hyears : Settings.InCalendar {} := ⟨by decide +kernel, by decide +kernel⟩
  have hgiven : ∀ k ∈ Keyed.keys ([] : List (String × Value)), (linkRecord.field? k).isSome := by
    simp
  have h := drawInstance_self_reference (σ := SplitMix) linkRegistry_reached
    Settings.default_valid hyears linkRegistry_answer
    (fun other hother => ⟨linkRecord, eq_of_link_reachable hother ▸ linkRegistry_answer⟩) hgiven
  refine ⟨Settings.default_valid, hyears, h.1 fun f hf _ => ?_⟩
  have ha := linkRegistry_reached.settled
  refine Viable.exists_admits ha ?_ (ha.checked linkRegistry_answer f hf) fun other =>
    List.count_le_length
  simp only [linkRecord, List.mem_cons, List.not_mem_nil, or_false] at hf
  rcases hf with rfl | rfl
  · exact .terminal rfl
  · exact .terminal rfl

end RecordModel
