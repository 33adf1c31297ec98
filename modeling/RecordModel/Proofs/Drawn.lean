/-
**What the generator gives.**

The values that the generator may draw for a type are those of a relation that follows the type:
it says which alternatives are open after a chain of records, where a collection stays empty and
where an optional value is absent.  Beside it stands a relation of the failures, each with the place
in the type where it comes from.  A run of the generator gives a value of the first relation or a
failure of the second one.

Main definitions:

* `Drawn` — the values that may be drawn for a type;
* `Stuck` — the failures that may come up on the way;
* `Fills` — the fields of an instance, given ones and drawn ones;
* `Record.LeastUnknown` — the least name that is given a value and is no field;
* `NoInstance` — why there is no instance of a record.

Main results:

* `Generator.valueF_gives` — **a run gives a value that may be drawn, or a failure that may come
  up**;
* `drawValue_gives`, `drawInstance_gives` — the same for values that are asked for by themselves,
  and for instances;
* `Generator.valueF_gives_lasting`, `drawInstance_gives_lasting` — the same with what lasts of the
  registry.
-/

import RecordModel.Proofs.Draws

set_option relaxedAutoImplicit false
set_option autoImplicit false

namespace RecordModel

open Stateful

/-! ### Values and failures -/

/-- The values that may be drawn for a type after the records of a chain, with so many levels of
nesting left. -/
inductive Drawn (answer : String → Except Error Record) (s : Settings) :
    Nat → List String → Descriptor → Value → Prop
  | primitive {levels : Nat} {chain : List String} {kind : Primitive} {v : Value} :
      kind.carries v = true → Drawn answer s (levels + 1) chain (.primitive kind) v
  | logical {levels : Nat} {chain : List String} {kind : Logical} {v : Value} :
      kind.carries v = true → Drawn answer s (levels + 1) chain (.logical kind) v
  | fixed {levels : Nat} {chain : List String} {type : FixedBytes} {bs : List UInt8} :
      bs.length = type.size → Drawn answer s (levels + 1) chain (.fixed type) (.fixed bs)
  | enum {levels : Nat} {chain : List String} {type : Enumeration} {symbol : String} :
      symbol ∈ type.symbols → Drawn answer s (levels + 1) chain (.enum type) (.enum symbol)
  | items {levels : Nat} {chain : List String} {items : Descriptor} {vs : List Value} :
      Viable answer s.selfReferenceDepth chain items →
      s.minItems ≤ vs.length → vs.length ≤ s.maxItems →
      (∀ v ∈ vs, Drawn answer s levels chain items v) →
      Drawn answer s (levels + 1) chain (.array items) (.array vs)
  | noItems {levels : Nat} {chain : List String} {items : Descriptor} :
      ¬ Viable answer s.selfReferenceDepth chain items →
      Drawn answer s (levels + 1) chain (.array items) (.array [])
  | values {levels : Nat} {chain : List String} {values : Descriptor}
      {entries : List (String × Value)} :
      Viable answer s.selfReferenceDepth chain values →
      s.minItems ≤ entries.length → entries.length ≤ s.maxItems →
      (Keyed.keys entries).Pairwise (· < ·) →
      (∀ e ∈ entries, Drawn answer s levels chain values e.2) →
      Drawn answer s (levels + 1) chain (.map values) (.map entries)
  | noValues {levels : Nat} {chain : List String} {values : Descriptor} :
      ¬ Viable answer s.selfReferenceDepth chain values →
      Drawn answer s (levels + 1) chain (.map values) (.map [])
  /-- An optional value may be absent by chance, and null is taken where nothing else ends. -/
  | absent {levels : Nat} {chain : List String} {d : Descriptor} :
      d.hasAlternatives = true → Descriptor.null ∈ d.alternatives →
      (d.isOptional = true ∧ 0 < Draw.threshold s.nullProbability ∨
        ∀ m ∈ d.alternatives, m.isNull = false → ¬ Viable answer s.selfReferenceDepth chain m) →
      Drawn answer s (levels + 1) chain d .null
  | member {levels : Nat} {chain : List String} {d m : Descriptor} {v : Value} :
      d.hasAlternatives = true → m ∈ d.alternatives → m.isNull = false →
      Viable answer s.selfReferenceDepth chain m →
      (d.isOptional = true → Draw.threshold s.nullProbability ≠ pow2 64) →
      Drawn answer s levels chain m v →
      Drawn answer s (levels + 1) chain d v
  | record {levels : Nat} {chain : List String} {name : String} {record : Record}
      {fields : List (String × Value)} :
      Viable answer s.selfReferenceDepth chain (.reference name) →
      answer name = .ok record → Keyed.keys fields = record.fields.map (·.name) →
      (∀ p ∈ record.fields.zip fields, Drawn answer s levels (name :: chain) p.1.type p.2.2) →
      Drawn answer s (levels + 1) chain (.reference name) (.record ⟨name, fields⟩)

/-- The failures that may come up for a type at a position. -/
inductive Stuck (answer : String → Except Error Record) (s : Settings) :
    Nat → List String → Generator.Position → Descriptor → Failure → Prop
  | tooDeep {chain : List String} {position : Generator.Position} {d : Descriptor} :
      Stuck answer s 0 chain position d (position.failure (.nestingTooDeep s.nestingDepth))
  | noRoom {levels : Nat} {chain : List String} {position : Generator.Position} {d : Descriptor}
      {b : Breakdown} :
      NoRoom s d b → Stuck answer s (levels + 1) chain position d (.breakdown b)
  | logical {levels : Nat} {chain : List String} {position : Generator.Position} {kind : Logical}
      {fault : GenerationFault} :
      LogicalFault s kind fault →
      Stuck answer s (levels + 1) chain position (.logical kind) (position.failure fault)
  | noSymbols {levels : Nat} {chain : List String} {position : Generator.Position}
      {type : Enumeration} :
      type.symbols = [] →
      Stuck answer s (levels + 1) chain position (.enum type)
        (position.failure (.noSymbols type.name))
  | unresolved {levels : Nat} {chain : List String} {position : Generator.Position}
      {d : Descriptor} {e : Error} :
      Unresolved answer d e → Stuck answer s (levels + 1) chain position d (.error e)
  | noMember {levels : Nat} {chain : List String} {position : Generator.Position}
      {d : Descriptor} :
      d.hasAlternatives = true →
      (∀ m ∈ d.alternatives, ¬ Viable answer s.selfReferenceDepth chain m) →
      Stuck answer s (levels + 1) chain position d
        (position.failure (.noGenerableMember d s.selfReferenceDepth))
  | noTerminalCase {levels : Nat} {chain : List String} {position : Generator.Position}
      {name : String} :
      ¬ Viable answer s.selfReferenceDepth chain (.reference name) →
      Stuck answer s (levels + 1) chain position (.reference name)
        (position.failure (.noTerminalCase name s.selfReferenceDepth))
  | items {levels : Nat} {chain : List String} {position : Generator.Position}
      {items : Descriptor} {e : Failure} :
      Viable answer s.selfReferenceDepth chain items →
      Stuck answer s levels chain position items e →
      Stuck answer s (levels + 1) chain position (.array items) e
  | values {levels : Nat} {chain : List String} {position : Generator.Position}
      {values : Descriptor} {e : Failure} :
      Viable answer s.selfReferenceDepth chain values →
      Stuck answer s levels chain position values e →
      Stuck answer s (levels + 1) chain position (.map values) e
  | member {levels : Nat} {chain : List String} {position : Generator.Position}
      {d m : Descriptor} {e : Failure} :
      d.hasAlternatives = true → m ∈ d.alternatives → m.isNull = false →
      Viable answer s.selfReferenceDepth chain m →
      Stuck answer s levels chain position m e →
      Stuck answer s (levels + 1) chain position d e
  | field {levels : Nat} {chain : List String} {position : Generator.Position} {name : String}
      {record : Record} {f : Field} {e : Failure} :
      Viable answer s.selfReferenceDepth chain (.reference name) →
      answer name = .ok record → f ∈ record.fields →
      Stuck answer s levels (name :: chain) ⟨name, some f.name⟩ f.type e →
      Stuck answer s (levels + 1) chain position (.reference name) e

/-! ### Instances -/

/-- The entries name the fields in order; a field that is given a value has it, and any other one
has a value of which `P` holds. -/
structure Fills (given : List (String × Value)) (fields : List Field)
    (entries : List (String × Value)) (P : Field → Value → Prop) : Prop where
  names : Keyed.keys entries = fields.map (·.name)
  pinned : ∀ p ∈ fields.zip entries, ∀ v, Keyed.get? p.1.name given = some v → p.2.2 = v
  drawn : ∀ p ∈ fields.zip entries, Keyed.get? p.1.name given = none → P p.1 p.2.2

section

variable {fields : List Field} {entries : List (String × Value)}

theorem length_eq_of_names (h : Keyed.keys entries = fields.map (·.name)) :
    entries.length = fields.length := by
  simpa [Keyed.keys] using congrArg List.length h

theorem exists_entry (h : Keyed.keys entries = fields.map (·.name)) {f : Field} (hf : f ∈ fields) :
    ∃ e, (f, e) ∈ fields.zip entries := by
  have hlen := length_eq_of_names h
  obtain ⟨i, hi, rfl⟩ := List.getElem_of_mem hf
  refine ⟨entries[i], List.mem_iff_getElem.mpr ⟨i, ?_, List.getElem_zip⟩⟩
  rw [List.length_zip]
  omega

theorem exists_field (h : Keyed.keys entries = fields.map (·.name)) {e : String × Value}
    (he : e ∈ entries) : ∃ f, (f, e) ∈ fields.zip entries := by
  have hlen := length_eq_of_names h
  obtain ⟨i, hi, rfl⟩ := List.getElem_of_mem he
  refine ⟨fields[i], List.mem_iff_getElem.mpr ⟨i, ?_, List.getElem_zip⟩⟩
  rw [List.length_zip]
  omega

end

/-- The entry is one for the field: it has the given value, or one of which `P` holds. -/
def EntryOf (given : List (String × Value)) (P : Field → Value → Prop) (f : Field)
    (e : String × Value) : Prop :=
  e.1 = f.name ∧ (∀ v, Keyed.get? f.name given = some v → e.2 = v) ∧
    (Keyed.get? f.name given = none → P f e.2)

theorem Fills.of_forall₂ {given : List (String × Value)} {fields : List Field}
    {entries : List (String × Value)} {P : Field → Value → Prop}
    (h : List.Forall₂ (EntryOf given P) fields entries) : Fills given fields entries P where
  names := by
    induction h with
    | nil => rfl
    | cons he _ ih => rw [Keyed.keys_cons, List.map_cons, he.1, ih]
  pinned p hp := ((List.forall₂_iff_zip.mp h).2 hp).2.1
  drawn p hp := ((List.forall₂_iff_zip.mp h).2 hp).2.2

/-- Why there is no instance of a record. -/
inductive NoInstance (answer : String → Except Error Record) (s : Settings) (name : String)
    (given : List (String × Value)) : Failure → Prop
  | settings {problem : SettingsProblem} :
      s.problem? = some problem →
      NoInstance answer s name given (.error (.generation name none (.invalidSettings problem)))
  | unresolved {e : Error} : answer name = .error e → NoInstance answer s name given (.error e)
  | unknownOverride {record : Record} {field : String} :
      answer name = .ok record → field ∈ Keyed.keys given → record.field? field = none →
      NoInstance answer s name given (.error (.generation name (some field) .unknownOverride))
  | field {record : Record} {f : Field} {e : Failure} :
      answer name = .ok record → f ∈ record.fields → Keyed.get? f.name given = none →
      Stuck answer s s.nestingDepth [name] ⟨name, some f.name⟩ f.type e →
      NoInstance answer s name given e

namespace Generator

variable {σ : Type} [RandomSource σ] {answer : String → Except Error Record}
  {names : String → Prop} {J : Registry → Prop}

/-! ### Steps -/

/-- The alternatives that are kept are those with an end, null apart. -/
theorem generableAlternatives_gives (hJ : Registry.Lasting answer names J) (ha : Settled answer)
    (limit : Nat) (chain : List String) {ms : List Descriptor} (hms : ∀ m ∈ ms, m.Names names) :
    Gives J (generableAlternatives limit chain ms)
      (fun kept => ∀ m, m ∈ kept ↔ m ∈ ms ∧ m.isNull = false ∧ Viable answer limit chain m)
      (fun e => ∃ m ∈ ms, Unresolved answer m e) := by
  induction ms with
  | nil => exact Gives.pure (by simp)
  | cons m rest ih =>
      rw [generableAlternatives]
      -- what follows when it is known whether the first one is kept: null is not, without a
      -- look-ahead, and any other one is when the look-ahead says so
      have hrest (keep : Bool)
          (hkeep : keep = true ↔ m.isNull = false ∧ Viable answer limit chain m) :
          Gives J
            (do
              let kept ← generableAlternatives limit chain rest
              return if keep then m :: kept else kept)
            (fun kept => ∀ m', m' ∈ kept ↔
              m' ∈ m :: rest ∧ m'.isNull = false ∧ Viable answer limit chain m')
            (fun e => ∃ m' ∈ m :: rest, Unresolved answer m' e) := by
        have hih := ih fun m' hm' => hms m' (List.mem_cons_of_mem _ hm')
        refine Gives.bind (hih.mono_error ?_) fun kept hkept => Gives.pure fun m' => ?_
        · rintro e ⟨m', hm', he⟩
          exact ⟨m', List.mem_cons_of_mem _ hm', he⟩
        · split
          · rename_i hk
            rw [List.mem_cons, List.mem_cons, hkept m']
            constructor
            · rintro (rfl | h)
              · exact ⟨Or.inl rfl, hkeep.mp hk⟩
              · exact ⟨Or.inr h.1, h.2⟩
            · rintro ⟨rfl | h, hv⟩
              · exact Or.inl rfl
              · exact Or.inr ⟨h, hv⟩
          · rename_i hk
            rw [List.mem_cons, hkept m']
            constructor
            · rintro ⟨h, hv⟩
              exact ⟨Or.inr h, hv⟩
            · rintro ⟨rfl | h, hv⟩
              · exact absurd (hkeep.mpr hv) hk
              · exact ⟨h, hv⟩
      split
      · rename_i hn
        exact hrest false (by simp [hn])
      · rename_i hn
        have hlook := hJ.generable_gives ha limit chain (hms m (List.mem_cons_self ..))
        refine Gives.bind (hlook.mono_error ?_) fun keep hkeep => ?_
        · exact fun e he => ⟨m, List.mem_cons_self .., he⟩
        · exact hrest keep (by simpa [hn] using hkeep)

/-- Entries are added under new keys, which go in their places. -/
theorem addEntries_gives {m : GeneratorM σ Value} {P : Value → Prop} {E : Failure → Prop}
    (h : Gives (OnRegistry J) m P E) (entries : List (String × Value)) (n : Nat)
    (hs : (Keyed.keys entries).Pairwise (· < ·)) (hp : ∀ e ∈ entries, P e.2) :
    Gives (OnRegistry J) (addEntries m entries n)
      (fun out => out.length = entries.length + n ∧ (Keyed.keys out).Pairwise (· < ·) ∧
        ∀ e ∈ out, P e.2) E := by
  induction n generalizing entries with
  | zero => exact Gives.pure ⟨rfl, hs, hp⟩
  | succ n ih =>
      rw [addEntries]
      refine Gives.bind (freshKey_gives (Keyed.keys entries)) fun key hkey => ?_
      refine Gives.bind h fun v hv => ?_
      have hp' : ∀ e ∈ Keyed.insert key v entries, P e.2 := by
        intro e he
        rcases Keyed.mem_insert he with rfl | he
        · exact hv
        · exact hp e he
      refine (ih _ (Keyed.sorted_keys_insert key v hs) hp').mono (fun out hout => ?_)
        fun _ he => he
      rw [Keyed.length_insert v hkey] at hout
      exact ⟨by omega, hout.2⟩

omit [RandomSource σ] in
/-- An entry has the given value, or one that comes from the field. -/
theorem entryWith_gives {value : Field → GeneratorM σ Value} {given : List (String × Value)}
    {f : Field} {P : Field → Value → Prop} {E : Failure → Prop}
    (h : Keyed.get? f.name given = none → Gives (OnRegistry J) (value f) (P f) E) :
    Gives (OnRegistry J) (entryWith value given f) (EntryOf given P f) E := by
  unfold entryWith
  cases hg : Keyed.get? f.name given with
  | some v =>
      refine Gives.pure ⟨rfl, fun w hw => ?_, fun hn => ?_⟩
      · exact Option.some.inj (hg.symm.trans hw)
      · cases hg.symm.trans hn
  | none =>
      refine Gives.bind (h hg) fun v hv => Gives.pure ⟨rfl, fun w hw => ?_, fun _ => hv⟩
      cases hg.symm.trans hw

/-- An instance has its fields in order, with the given values and the drawn ones. -/
theorem instanceWith_gives (hJ : Registry.Lasting answer names J) (ha : Settled answer)
    {value : List String → Position → Descriptor → GeneratorM σ Value}
    {given : List (String × Value)} {chain : List String} {name : String} (hn : names name)
    {P : Field → Value → Prop} {E : Failure → Prop}
    (hfetch : ∀ e, answer name = .error e → E (.error e))
    (hvalue : ∀ record, answer name = .ok record → ∀ f ∈ record.fields,
      Keyed.get? f.name given = none →
      Gives (OnRegistry J) (value (name :: chain) ⟨name, some f.name⟩ f.type) (P f) E) :
    Gives (OnRegistry J) (instanceWith value given chain name)
      (fun i => ∃ record, answer name = .ok record ∧ i.record = name ∧
        Fills given record.fields i.fields P) E := by
  refine Gives.bind (ask_gives (hJ.fetch_gives hn) hfetch) fun record hr => ?_
  rw [ha.name_eq hr]
  have hentry : ∀ f ∈ record.fields, Gives (OnRegistry J)
      (entryWith (fun f => value (name :: chain) ⟨name, some f.name⟩ f.type) given f)
      (EntryOf given P f) E :=
    fun f hf => entryWith_gives (hvalue record hr f hf)
  refine Gives.bind (Gives.mapM hentry) fun fields hfields => ?_
  exact Gives.pure ⟨record, hr, rfl, .of_forall₂ hfields⟩

theorem chosenWith_gives {value : Descriptor → GeneratorM σ Value} {position : Position}
    {ms : List Descriptor} {Q : Value → Prop} {E : Failure → Prop} (hms : ms ≠ [])
    (h : ∀ m ∈ ms, Gives (OnRegistry J) (value m) Q E) :
    Gives (OnRegistry J) (chosenWith value position ms) Q E := by
  refine Gives.bind (choose?_gives ms) fun m? hm => ?_
  cases m? with
  | none => exact absurd hm hms
  | some m => exact h m hm

/-! ### All types -/

section

variable (hJ : Registry.Lasting answer names J) (ha : Settled answer) (s : Settings)
  {levels : Nat} {chain : List String} {position : Position} {d : Descriptor}

include hJ ha

/-- A member of a union is drawn when its values are. -/
theorem unionWith_gives (hd : d.hasAlternatives = true) (hn : d.Names names)
    {value : Descriptor → GeneratorM σ Value}
    (hvalue : ∀ m ∈ d.alternatives, Gives (OnRegistry J) (value m)
      (Drawn answer s levels chain m) (Stuck answer s levels chain position m)) :
    Gives (OnRegistry J) (unionWith s value chain position d)
      (Drawn answer s (levels + 1) chain d) (Stuck answer s (levels + 1) chain position d) := by
  have hnames : ∀ m ∈ d.alternatives, m.Names names := fun m hm => hn.alternative hm
  unfold unionWith
  refine Gives.bind (ask_gives (generableAlternatives_gives hJ ha _ chain hnames) ?_)
    fun candidates hc => ?_
  · rintro e ⟨m, hm, he⟩
    exact .unresolved (he.of_mem_alternatives hm)
  · split
    · rename_i hempty
      have hnone : ∀ m ∈ d.alternatives, m.isNull = false →
          ¬ Viable answer s.selfReferenceDepth chain m := by
        intro m hm hn hv
        have hmem := (hc m).mpr ⟨hm, hn, hv⟩
        rw [List.isEmpty_iff.mp hempty] at hmem
        cases hmem
      split
      · rename_i hnull
        obtain ⟨m, hm, hn⟩ := List.any_eq_true.mp hnull
        exact Gives.pure (.absent hd ((Descriptor.isNull_iff m).mp hn ▸ hm) (Or.inr hnone))
      · rename_i hnull
        refine fail_gives (.noMember hd fun m hm => hnone m hm ?_)
        exact Bool.eq_false_iff.mpr fun hn => hnull (List.any_eq_true.mpr ⟨m, hm, hn⟩)
    · rename_i hempty
      -- what follows when an optional value is not absent by chance
      have hmember (hp : d.isOptional = true → Draw.threshold s.nullProbability ≠ pow2 64) :
          Gives (OnRegistry J) (chosenWith value position candidates)
            (Drawn answer s (levels + 1) chain d)
            (Stuck answer s (levels + 1) chain position d) := by
        refine chosenWith_gives (mt List.isEmpty_iff.mpr hempty) fun m hmem => ?_
        obtain ⟨hm, hn, hv⟩ := (hc m).mp hmem
        refine (hvalue m hm).mono (fun v hdrawn => ?_) fun e hstuck => ?_
        · exact .member hd hm hn hv hp hdrawn
        · exact .member hd hm hn hv hstuck
      split
      · rename_i ho
        refine Gives.bind ((chance_gives s.nullProbability).mono_error ?_) fun absent hp => ?_
        · rintro e ⟨hp, rfl⟩
          exact .noRoom (.absence ho hp)
        · dsimp only
          split
          · rename_i ht
            rw [if_pos ht] at hp
            exact Gives.pure (.absent hd (Descriptor.null_mem_alternatives ho) (Or.inl ⟨ho, hp⟩))
          · rename_i ht
            rw [if_neg ht] at hp
            exact hmember fun _ => hp
      · rename_i ho
        exact hmember fun h => absurd h ho

/-- A run gives a value that may be drawn, or a failure that may come up. -/
theorem valueF_gives_lasting (levels : Nat) (chain : List String) (position : Position)
    (hn : d.Names names) :
    Gives (OnRegistry (σ := σ) J) (valueF s levels chain position d)
      (Drawn answer s levels chain d) (Stuck answer s levels chain position d) := by
  -- induction on the levels left: a collection, a member and a record each take one of them
  induction levels generalizing chain position d with
  | zero => exact fail_gives .tooDeep
  | succ levels ih =>
      have hcount : Gives (OnRegistry (σ := σ) J) (count s.minItems s.maxItems)
          (fun n => s.minItems ≤ n ∧ n ≤ s.maxItems)
          (fun e => s.maxItems < s.minItems ∧ e = .breakdown .emptyRange) := count_gives _ _
      cases d with
      | primitive kind =>
          rw [valueF]
          refine (primitive_gives s kind).mono (fun v hv => .primitive hv) ?_
          rintro e ⟨b, hb, rfl⟩
          exact .noRoom hb
      | logical kind =>
          rw [valueF]
          refine (logical_gives s position kind).mono (fun v hv => .logical hv) ?_
          rintro e (⟨fault, hf, rfl⟩ | ⟨b, hb, rfl⟩)
          · exact .logical hf
          · exact .noRoom hb
      | fixed type =>
          rw [valueF]
          refine Gives.bind (draw_gives (Q := fun bs => bs.length = type.size) ?_) fun bs hbs => ?_
          · exact RandomSource.length_bytes type.size
          · exact Gives.pure (.fixed hbs)
      | enum type =>
          rw [valueF]
          refine Gives.bind (choose?_gives type.symbols) fun symbol? hs => ?_
          cases symbol? with
          | none => exact fail_gives (.noSymbols hs)
          | some symbol => exact Gives.pure (.enum hs)
      | array items =>
          rw [valueF]
          have hitems : items.Names names := hn.of_within (.items .refl)
          refine Gives.bind (ask_gives (hJ.generable_gives ha _ chain hitems) ?_) fun b hb => ?_
          · exact fun e he => .unresolved (he.of_within (.items .refl))
          · split
            · rename_i ht
              refine Gives.bind (hcount.mono_error ?_) fun n hn => ?_
              · rintro e ⟨h, rfl⟩
                exact .noRoom (.items h)
              · have hitem := (ih chain position hitems).mono_error
                  fun e he => Stuck.items (hb.mp ht) he
                refine Gives.bind (repeatM_gives hitem n) fun vs hvs => ?_
                obtain ⟨rfl, hvs⟩ := hvs
                exact Gives.pure (.items (hb.mp ht) hn.1 hn.2 hvs)
            · rename_i hf
              exact Gives.pure (.noItems (mt hb.mpr hf))
      | map values =>
          rw [valueF]
          have hvalues : values.Names names := hn.of_within (.values .refl)
          refine Gives.bind (ask_gives (hJ.generable_gives ha _ chain hvalues) ?_) fun b hb => ?_
          · exact fun e he => .unresolved (he.of_within (.values .refl))
          · split
            · rename_i ht
              refine Gives.bind (hcount.mono_error ?_) fun n hn => ?_
              · rintro e ⟨h, rfl⟩
                exact .noRoom (.values h)
              · have hvalue := (ih chain position hvalues).mono_error
                  fun e he => Stuck.values (hb.mp ht) he
                refine Gives.bind (addEntries_gives hvalue [] n List.Pairwise.nil (by simp))
                  fun entries he => ?_
                obtain ⟨hlen, hsorted, hvs⟩ := he
                rw [List.length_nil, Nat.zero_add] at hlen
                exact Gives.pure (.values (hb.mp ht) (hlen ▸ hn.1) (hlen ▸ hn.2) hsorted hvs)
            · rename_i hf
              exact Gives.pure (.noValues (mt hb.mpr hf))
      | union members =>
          rw [valueF]
          exact unionWith_gives hJ ha s rfl hn fun m hm => ih chain position (hn.alternative hm)
      | optional inner =>
          rw [valueF]
          exact unionWith_gives hJ ha s rfl hn fun m hm => ih chain position (hn.alternative hm)
      | reference name =>
          rw [valueF]
          refine Gives.bind (ask_gives (hJ.generable_gives ha _ chain hn) ?_) fun b hb => ?_
          · exact fun e he => .unresolved he
          · split
            · rename_i ht
              have hinstance : Gives (OnRegistry (σ := σ) J)
                  (instanceWith (valueF s levels) [] chain name)
                  (fun i => ∃ record, answer name = .ok record ∧ i.record = name ∧
                    Fills [] record.fields i.fields
                      (fun f => Drawn answer s levels (name :: chain) f.type))
                  (Stuck answer s (levels + 1) chain position (.reference name)) := by
                refine instanceWith_gives hJ ha (hn name .refl) ?_ fun record hr f hf _ => ?_
                · exact fun e he => .unresolved ⟨name, .reference_self, he⟩
                · have hfield := hJ.names_of_field (hn name .refl) hr hf
                  exact (ih _ _ hfield).mono_error fun e he => .field (hb.mp ht) hr hf he
              refine Gives.bind hinstance fun i hi => ?_
              obtain ⟨record, hr, hname, hfills⟩ := hi
              obtain ⟨_, fields⟩ := i
              cases hname
              -- an instance inside a value is given nothing, so that every field is drawn
              exact Gives.pure (.record (hb.mp ht) hr hfills.names
                fun p hp => hfills.drawn p hp rfl)
            · rename_i hf
              exact fail_gives (.noTerminalCase (mt hb.mpr hf))

end

/-- **A run gives a value that may be drawn, or a failure that may come up.** -/
theorem valueF_gives (ha : Settled answer) (s : Settings) (levels : Nat) (chain : List String)
    (position : Position) (d : Descriptor) :
    Gives (Knows (σ := σ) answer) (valueF s levels chain position d)
      (Drawn answer s levels chain d) (Stuck answer s levels chain position d) :=
  valueF_gives_lasting (Answers.lasting answer) ha s levels chain position fun _ _ => trivial

end Generator

theorem mem_of_leastName? {names : List String} {name : String}
    (h : leastName? names = some name) : name ∈ names :=
  List.mem_mergeSort.mp (List.mem_of_mem_head? (Option.mem_def.mpr h))

/-- The least name is the least one. -/
theorem leastName?_le {names : List String} {name : String} (h : leastName? names = some name) :
    ∀ other ∈ names, name ≤ other := by
  intro other hother
  have hsorted : (names.mergeSort fun a b => decide (a ≤ b)).Pairwise
      fun a b => decide (a ≤ b) = true := by
    refine List.pairwise_mergeSort (fun a b c hab hbc => ?_) (fun a b => ?_) names
    · exact decide_eq_true (String.le_trans (of_decide_eq_true hab) (of_decide_eq_true hbc))
    · simpa using String.le_total a b
  rw [leastName?] at h
  have hmem : other ∈ names.mergeSort fun a b => decide (a ≤ b) := List.mem_mergeSort.mpr hother
  cases hlist : names.mergeSort fun a b => decide (a ≤ b) with
  | nil =>
      rw [hlist] at hmem
      cases hmem
  | cons first rest =>
      rw [hlist] at h hmem hsorted
      cases h
      rcases List.mem_cons.mp hmem with rfl | hmem
      · exact String.le_refl _
      · simpa using List.rel_of_pairwise_cons hsorted hmem

/-- There is no least name exactly when there are no names. -/
theorem leastName?_eq_none_iff {names : List String} : leastName? names = none ↔ names = [] := by
  rw [leastName?, List.head?_eq_none_iff]
  constructor
  · intro h
    have hp := List.mergeSort_perm names fun a b => decide (a ≤ b)
    rw [h] at hp
    exact hp.nil_eq.symm
  · rintro rfl
    exact List.mergeSort_nil

/-- The name is the least one of those that are given a value and are no field of the record. -/
structure Record.LeastUnknown (record : Record) (given : List (String × Value)) (field : String) :
    Prop where
  mem : field ∈ Keyed.keys given
  unknown : record.field? field = none
  least : ∀ other ∈ Keyed.keys given, record.field? other = none → field ≤ other

theorem Record.leastUnknown_of_leastName? {record : Record} {given : List (String × Value)}
    {field : String}
    (h : leastName? ((Keyed.keys given).filter fun k => (record.field? k).isNone) = some field) :
    record.LeastUnknown given field := by
  obtain ⟨hgiven, hnone⟩ := List.mem_filter.mp (mem_of_leastName? h)
  refine ⟨hgiven, Option.isNone_iff_eq_none.mp hnone, fun other hother hunknown => ?_⟩
  exact leastName?_le h other (List.mem_filter.mpr ⟨hother, Option.isNone_iff_eq_none.mpr hunknown⟩)

section

variable {σ : Type} [RandomSource σ] {answer : String → Except Error Record}
  {names : String → Prop} {J : Registry → Prop}

omit [RandomSource σ] in
/-- Settings are refused for their first problem alone. -/
theorem checkSettings_gives (s : Settings) (name : String) :
    Gives (Generator.OnRegistry (σ := σ) J) (checkSettings s name) (fun _ => s.Valid)
      (fun e => ∃ problem, s.problem? = some problem ∧
        e = .error (.generation name none (.invalidSettings problem))) := by
  unfold checkSettings
  split
  · rename_i problem hp
    exact Gives.throw ⟨problem, hp, rfl⟩
  · rename_i hv
    exact Gives.pure hv

/-- **A run gives a value that may be drawn, unless the settings have a problem, or a failure that
may come up.** -/
theorem drawValue_gives (ha : Settled answer) (s : Settings) (d : Descriptor) :
    Gives (Generator.Knows (σ := σ) answer) (drawValue s d)
      (fun v => Drawn answer s s.nestingDepth [] d v)
      (fun e => (∃ problem, s.problem? = some problem ∧
          e = .error (.generation noRecord none (.invalidSettings problem))) ∨
        Stuck answer s s.nestingDepth [] ⟨noRecord, none⟩ d e) := by
  refine Gives.bind ((checkSettings_gives s noRecord).mono_error ?_) fun _ _ => ?_
  · exact fun e he => Or.inl he
  · exact (Generator.valueF_gives ha s _ _ _ d).mono_error fun e he => Or.inr he

/-- An instance comes from the values of the fields that are not given one, if the settings have no
problem, the record is there and it has all fields that are given values. -/
theorem drawInstance_gives_of_fields (hJ : Registry.Lasting answer names J) (ha : Settled answer)
    (s : Settings) {name : String} (hn : names name) (given : List (String × Value))
    {P : Field → Value → Prop} {E : Failure → Prop}
    (hsettings : ∀ problem, s.problem? = some problem →
      E (.error (.generation name none (.invalidSettings problem))))
    (hfetch : ∀ e, answer name = .error e → E (.error e))
    (hoverride : ∀ record, answer name = .ok record → ∀ field, record.LeastUnknown given field →
      E (.error (.generation name (some field) .unknownOverride)))
    (hvalue : ∀ record, answer name = .ok record → ∀ f ∈ record.fields,
      Keyed.get? f.name given = none →
      Gives (Generator.OnRegistry (σ := σ) J)
        (Generator.valueF s s.nestingDepth [name] ⟨name, some f.name⟩ f.type) (P f) E) :
    Gives (Generator.OnRegistry (σ := σ) J) (drawInstance s name given)
      (fun i => s.Valid ∧ ∃ record, answer name = .ok record ∧ i.record = name ∧
        Fills given record.fields i.fields P) E := by
  refine Gives.bind ((checkSettings_gives s name).mono_error ?_) fun _ hvalid => ?_
  · rintro e ⟨problem, hp, rfl⟩
    exact hsettings problem hp
  refine Gives.bind (Generator.ask_gives (hJ.fetch_gives hn) hfetch) fun record hr => ?_
  dsimp only
  split
  · rename_i field hf
    exact Gives.throw (hoverride record hr field (Record.leastUnknown_of_leastName? hf))
  · have hinstance := Generator.instanceWith_gives hJ ha hn hfetch hvalue
    exact hinstance.mono (fun i hi => ⟨hvalid, hi⟩) fun _ he => he

/-- A run gives an instance with given and drawn fields, or a failure that may come up. -/
theorem drawInstance_gives_lasting (hJ : Registry.Lasting answer names J) (ha : Settled answer)
    (s : Settings) {name : String} (hn : names name) (given : List (String × Value)) :
    Gives (Generator.OnRegistry (σ := σ) J) (drawInstance s name given)
      (fun i => s.Valid ∧ ∃ record, answer name = .ok record ∧ i.record = name ∧
        Fills given record.fields i.fields
          (fun f => Drawn answer s s.nestingDepth [name] f.type))
      (NoInstance answer s name given) := by
  refine drawInstance_gives_of_fields hJ ha s hn given (fun _ hp => .settings hp)
    (fun _ he => .unresolved he) (fun _ hr _ hk => .unknownOverride hr hk.mem hk.unknown)
    fun record hr f hf hg => ?_
  have hvalue := Generator.valueF_gives_lasting (σ := σ) hJ ha s s.nestingDepth [name]
    ⟨name, some f.name⟩ (hJ.names_of_field hn hr hf)
  exact hvalue.mono_error fun _ he => .field hr hf hg he

/-- **A run gives an instance with given and drawn fields, or a failure that may come up.** -/
theorem drawInstance_gives (ha : Settled answer) (s : Settings) (name : String)
    (given : List (String × Value)) :
    Gives (Generator.Knows (σ := σ) answer) (drawInstance s name given)
      (fun i => s.Valid ∧ ∃ record, answer name = .ok record ∧ i.record = name ∧
        Fills given record.fields i.fields
          (fun f => Drawn answer s s.nestingDepth [name] f.type))
      (NoInstance answer s name given) :=
  drawInstance_gives_lasting (Answers.lasting answer) ha s trivial given

end

end RecordModel
