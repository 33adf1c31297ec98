/-
**Drawing on registries with the same answers.**

The generator reads a registry in two places: where it takes the fields of a record, and where it
looks ahead.  Both depend on the answers of the registry alone.  So from the same state of the
source it draws the same instance on two registries that give the same answers, or fails in the same
way, and leaves the same state of the source behind.

Main definitions:

* `Generator.SameState` — states with the same answers and the same source.

Main results:

* `Generator.primitive_agree`, `Generator.logical_agree` — scalars;
* `Generator.valueF_agree` — values of any type;
* `drawInstance_agree` — **an instance depends on the answers and the source alone**.
-/

import RecordModel.Proofs.Agreement
import RecordModel.Proofs.Draws

set_option relaxedAutoImplicit false
set_option autoImplicit false

namespace RecordModel

open Stateful

namespace Generator

variable {σ : Type} {α : Type} {answer : String → Except Error Record}

/-- Both registries give these answers, and the sources are in the same state. -/
def SameState (answer : String → Except Error Record) (s t : GeneratorState σ) : Prop :=
  SameAnswers answer s.registry t.registry ∧ s.source = t.source

/-- The computation gives the same on registries with the same answers. -/
abbrev Repeatable (answer : String → Except Error Record) (m : GeneratorM σ α) : Prop :=
  Agree (SameState answer) m m

/-! ### Steps -/

theorem draw_agree [RandomSource σ] (d : Draw σ α) : Repeatable answer (draw d) := by
  rintro s t ⟨hsame, hsource⟩
  have hanswer : (d.run s.source).1 = (d.run t.source).1 := by rw [hsource]
  have hstate : (d.run s.source).2 = (d.run t.source).2 := by rw [hsource]
  exact ⟨congrArg Except.ok hanswer, hsame, hstate⟩

theorem ask_agree {m : RegistryM α} (h : Agree (SameAnswers answer) m m) :
    Repeatable (σ := σ) answer (ask m) :=
  Agree.onPart (fun _ _ hs => hs.1) (fun _ _ _ _ hs hp => ⟨hp, hs.2⟩) h

theorem fail_agree (position : Position) (fault : GenerationFault) :
    Repeatable (σ := σ) answer (fail position fault : GeneratorM σ α) :=
  Agree.throw _

theorem repeatM_agree {m : GeneratorM σ α} (h : Repeatable answer m) (n : Nat) :
    Repeatable answer (repeatM m n) := by
  induction n with
  | zero => exact Agree.pure []
  | succ n ih =>
      rw [repeatM]
      refine Agree.bind h fun a => ?_
      exact Agree.bind ih fun as => Agree.pure (a :: as)

variable [RandomSource σ]

theorem between_agree (w : Draw.Width) (low high : Int) :
    Repeatable (σ := σ) answer (between w low high) := by
  unfold between
  split
  · exact Agree.throw _
  · exact draw_agree _

theorem count_agree (least most : Nat) : Repeatable (σ := σ) answer (count least most) :=
  Agree.bind (between_agree .w64 least most) fun _ => Agree.pure _

theorem floatBelow_agree {f : BinaryFormat} (w : Draw.Width) (bound : Binary f) :
    Repeatable (σ := σ) answer (floatBelow w bound) := by
  unfold floatBelow
  split
  · exact Agree.throw _
  · split
    · exact draw_agree _
    · exact Agree.throw _

theorem chance_agree (p : Binary64) : Repeatable (σ := σ) answer (chance p) := by
  unfold chance
  split
  · exact draw_agree _
  · exact Agree.throw _

theorem choose?_agree (xs : List α) : Repeatable (σ := σ) answer (choose? xs) := by
  unfold choose?
  split
  · exact Agree.pure none
  · exact Agree.bind (draw_agree _) fun index => Agree.pure xs[index]?

theorem freshKeyF_agree (taken : List String) (tries : Nat) :
    Repeatable (σ := σ) answer (freshKeyF taken tries) := by
  induction tries with
  | zero => exact Agree.pure _
  | succ tries ih =>
      rw [freshKeyF]
      refine Agree.bind (draw_agree _) fun key => ?_
      split
      · exact ih
      · exact Agree.pure key

theorem addEntries_agree {m : GeneratorM σ Value} (h : Repeatable answer m)
    (entries : List (String × Value)) (n : Nat) : Repeatable answer (addEntries m entries n) := by
  induction n generalizing entries with
  | zero => exact Agree.pure entries
  | succ n ih =>
      rw [addEntries]
      refine Agree.bind (freshKeyF_agree _ _) fun key => ?_
      exact Agree.bind h fun v => ih (Keyed.insert key v entries)

/-! ### Scalars -/

/-- A value of a primitive type. -/
theorem primitive_agree (s : Settings) (kind : Primitive) :
    Repeatable (σ := σ) answer (primitive s kind) := by
  cases kind with
  | boolean => exact Agree.map (draw_agree _) _
  | int32 => exact Agree.bind (draw_agree _) fun _ => Agree.pure _
  | int64 => exact Agree.bind (draw_agree _) fun _ => Agree.pure _
  | float32 => exact Agree.map (floatBelow_agree _ _) _
  | float64 => exact Agree.map (floatBelow_agree _ _) _
  | bytes =>
      refine Agree.bind (count_agree _ _) fun n => ?_
      exact Agree.bind (draw_agree _) fun _ => Agree.pure _
  | string =>
      refine Agree.bind (count_agree _ _) fun n => ?_
      exact Agree.bind (draw_agree _) fun _ => Agree.pure _
  | null => exact Agree.pure _

theorem date_agree (s : Settings) (position : Position) :
    Repeatable (σ := σ) answer (date s position) := by
  unfold date
  split
  · split
    · refine Agree.bind (between_agree _ _ _) fun offset => ?_
      split
      · exact Agree.pure _
      · exact Agree.throw _
    · exact fail_agree _ _
  · exact fail_agree _ _

theorem timeOfDay_agree (perSecond : Nat) (position : Position) :
    Repeatable (σ := σ) answer (timeOfDay perSecond position) := by
  refine Agree.bind (between_agree _ _ _) fun seconds => ?_
  refine Agree.bind (between_agree _ _ _) fun units => ?_
  split
  · exact Agree.pure _
  · exact fail_agree _ _

theorem instant_agree (s : Settings) (perSecond : Nat) (position : Position) :
    Repeatable (σ := σ) answer (instant s perSecond position) := by
  refine Agree.bind (date_agree s position) fun day => ?_
  exact Agree.bind (timeOfDay_agree perSecond position) fun time => Agree.pure _

theorem decimal_agree (precision scale : Nat) (position : Position) :
    Repeatable (σ := σ) answer (decimal precision scale position) := by
  unfold decimal
  split
  · exact fail_agree _ _
  · split
    · exact fail_agree _ _
    · refine Agree.bind (between_agree _ _ _) fun unscaled => ?_
      split
      · exact Agree.pure _
      · exact fail_agree _ _

/-- A value of a logical type. -/
theorem logical_agree (s : Settings) (position : Position) (kind : Logical) :
    Repeatable (σ := σ) answer (logical s position kind) := by
  cases kind with
  | date => exact Agree.map (date_agree _ _) _
  | timeMillis => exact Agree.map (timeOfDay_agree _ _) _
  | timeMicros => exact Agree.map (timeOfDay_agree _ _) _
  | timestampMillis => exact Agree.map (instant_agree _ _ _) _
  | timestampMicros => exact Agree.map (instant_agree _ _ _) _
  | uuid => exact Agree.bind (draw_agree _) fun _ => Agree.pure _
  | decimal precision scale => exact Agree.map (decimal_agree _ _ _) _

/-! ### Records and unions -/

omit [RandomSource σ] in
theorem instanceWith_agree {value : List String → Position → Descriptor → GeneratorM σ Value}
    (h : ∀ chain position d, Repeatable answer (value chain position d))
    (given : List (String × Value)) (chain : List String) (name : String) :
    Repeatable answer (instanceWith value given chain name) := by
  refine Agree.bind (ask_agree (fetch_agree answer name)) fun record => ?_
  refine Agree.bind (Agree.mapM fun f _ => ?_) fun entries => Agree.pure _
  unfold entryWith
  split
  · exact Agree.pure _
  · exact Agree.bind (h _ _ _) fun v => Agree.pure (f.name, v)

/-- The members of a union that are kept. -/
theorem generableAlternatives_agree (ha : Settled answer) (limit : Nat) (chain : List String)
    (ms : List Descriptor) :
    Agree (SameAnswers answer) (generableAlternatives limit chain ms)
      (generableAlternatives limit chain ms) := by
  induction ms with
  | nil => exact Agree.pure []
  | cons m rest ih =>
      rw [generableAlternatives]
      split
      · exact Agree.bind (Agree.pure false) fun keep => Agree.bind ih fun kept => Agree.pure _
      · refine Agree.bind (generable_agree ha limit chain m) fun keep => ?_
        exact Agree.bind ih fun kept => Agree.pure _

theorem chosenWith_agree {value : Descriptor → GeneratorM σ Value}
    (h : ∀ m, Repeatable answer (value m)) (position : Position) (ms : List Descriptor) :
    Repeatable answer (chosenWith value position ms) := by
  refine Agree.bind (choose?_agree ms) fun m? => ?_
  cases m? with
  | none => exact fail_agree _ _
  | some m => exact h m

/-- A value of a union or an optional type, when those of its members are drawn alike. -/
theorem unionWith_agree (ha : Settled answer) (s : Settings)
    {value : Descriptor → GeneratorM σ Value} (h : ∀ m, Repeatable answer (value m))
    (chain : List String) (position : Position) (d : Descriptor) :
    Repeatable answer (unionWith s value chain position d) := by
  refine Agree.bind (ask_agree (generableAlternatives_agree ha _ _ _)) fun candidates => ?_
  split
  · split
    · exact Agree.pure _
    · exact fail_agree _ _
  · split
    · refine Agree.bind (chance_agree _) fun absent => ?_
      dsimp only
      split
      · exact Agree.pure _
      · exact chosenWith_agree h position candidates
    · refine Agree.bind (Agree.pure false) fun absent => ?_
      dsimp only
      split
      · exact Agree.pure _
      · exact chosenWith_agree h position candidates

/-! ### All types -/

/-- **A value of any type depends on the answers and the source alone.** -/
theorem valueF_agree (ha : Settled answer) (s : Settings) (levels : Nat) (chain : List String)
    (position : Position) (d : Descriptor) :
    Repeatable (σ := σ) answer (valueF s levels chain position d) := by
  -- induction on the levels left, which every value inside takes one of
  induction levels generalizing chain position d with
  | zero => exact fail_agree _ _
  | succ levels ih =>
      cases d with
      | primitive kind =>
          rw [valueF]
          exact primitive_agree s kind
      | logical kind =>
          rw [valueF]
          exact logical_agree s position kind
      | fixed type =>
          rw [valueF]
          exact Agree.bind (draw_agree _) fun _ => Agree.pure _
      | enum type =>
          rw [valueF]
          refine Agree.bind (choose?_agree type.symbols) fun symbol? => ?_
          cases symbol? with
          | none => exact fail_agree _ _
          | some symbol => exact Agree.pure _
      | array items =>
          rw [valueF]
          refine Agree.bind (ask_agree (generable_agree ha _ chain items)) fun b => ?_
          split
          · refine Agree.bind (count_agree _ _) fun n => ?_
            exact Agree.bind (repeatM_agree (ih chain position items) n) fun vs => Agree.pure _
          · exact Agree.pure _
      | map values =>
          rw [valueF]
          refine Agree.bind (ask_agree (generable_agree ha _ chain values)) fun b => ?_
          split
          · refine Agree.bind (count_agree _ _) fun n => ?_
            exact Agree.bind (addEntries_agree (ih chain position values) [] n)
              fun entries => Agree.pure _
          · exact Agree.pure _
      | union members =>
          rw [valueF]
          exact unionWith_agree ha s (ih chain position) chain position _
      | optional inner =>
          rw [valueF]
          exact unionWith_agree ha s (ih chain position) chain position _
      | reference name =>
          rw [valueF]
          refine Agree.bind (ask_agree (generable_agree ha _ chain (.reference name))) fun b => ?_
          split
          · refine Agree.bind (instanceWith_agree ih [] chain name) fun i => ?_
            exact Agree.pure _
          · exact fail_agree _ _

end Generator

/-- **An instance depends on the answers and the source alone.** -/
theorem drawInstance_agree {σ : Type} [RandomSource σ] {answer : String → Except Error Record}
    (ha : Settled answer) (s : Settings) (name : String) (given : List (String × Value)) :
    Generator.Repeatable (σ := σ) answer (drawInstance s name given) := by
  have hsettings : Generator.Repeatable (σ := σ) answer (checkSettings s name) := by
    unfold checkSettings
    split
    · exact Agree.throw _
    · exact Agree.pure ()
  refine Agree.bind hsettings fun _ => ?_
  refine Agree.bind (Generator.ask_agree (fetch_agree answer name)) fun record => ?_
  dsimp only
  split
  · exact Agree.throw _
  · exact Generator.instanceWith_agree (Generator.valueF_agree ha s _) given [] name

end RecordModel
