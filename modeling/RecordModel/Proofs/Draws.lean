/-
**What the draws of scalars give.**

Every draw lies in the range that it is asked for.  A scalar of a primitive or a logical type is
therefore a value in the very shape of its type, and a draw of one goes wrong in few ways: its range
is empty, or the years of the settings lie outside the calendar, or a decimal is asked for more
digits than there are.

Main definitions:

* `Primitive.carries`, `Logical.carries` — the values in the shape of a scalar type;
* `BadBound`, `NoRoom` — the ranges that the settings leave no room in;
* `LogicalFault` — what goes wrong with a logical type;
* `Generator.OnRegistry` — a property of the registry that draws leave alone.

Main results:

* `Generator.exists_decimal_run` — what is asked for when a decimal is drawn;
* `Generator.primitive_gives`, `Generator.logical_gives` — **what is drawn for a scalar has the
  shape of its type**;
* `Generator.choose?_gives`, `Generator.freshKey_gives` — choices, and keys that are not taken.
-/

import RecordModel.Conformance
import RecordModel.Generator.Basic
import RecordModel.Proofs.Rounding
import RecordModel.Proofs.Viable

set_option relaxedAutoImplicit false
set_option autoImplicit false

namespace RecordModel

open Stateful

/-! ### Shapes of scalars -/

/-- The values in the shape of a primitive type; numbers are finite. -/
def Primitive.carries : Primitive → Value → Bool
  | .null, .null => true
  | .boolean, .boolean _ => true
  | .int32, .int32 _ => true
  | .int64, .int64 _ => true
  | .float32, .float32 x => x.isFinite
  | .float64, .float64 x => x.isFinite
  | .bytes, .bytes _ => true
  | .string, .string _ => true
  | _, _ => false

theorem Primitive.accepts_of_carries {kind : Primitive} {v : Value} (h : kind.carries v = true) :
    kind.accepts v = true := by
  cases kind <;> cases v <;> simp_all [Primitive.carries, Primitive.accepts]

/-- The values in the shape of a logical type; a decimal is below the power of ten of its
precision. -/
def Logical.carries : Logical → Value → Bool
  | .date, .date _ => true
  | .timeMillis, .timeMillis _ => true
  | .timeMicros, .timeMicros _ => true
  | .timestampMillis, .timestampMillis _ => true
  | .timestampMicros, .timestampMicros _ => true
  | .uuid, .uuid _ => true
  | .decimal precision scale, .decimal d =>
      d.scale == scale && scale ≤ precision && d.unscaled.natAbs < pow10 precision
  | _, _ => false

/-- A type accepts the values in its shape, unless it is that of decimals without digits. -/
theorem Logical.accepts_of_carries {kind : Logical} {v : Value} (h : kind.carries v = true)
    (hp : kind ≠ .decimal 0 0) : kind.accepts v = true := by
  cases kind with
  | decimal precision scale =>
      cases v with
      | decimal d =>
          simp only [Logical.carries, Bool.and_eq_true, beq_iff_eq, decide_eq_true_eq] at h
          obtain ⟨⟨hs, hle⟩, hlt⟩ := h
          -- without digits there would be no number of so many digits, not even zero
          have hpos : 0 < precision := by
            refine Nat.pos_of_ne_zero fun h0 => hp ?_
            subst h0
            rw [Nat.le_zero.mp hle]
          simp only [Logical.accepts, Bool.and_eq_true, beq_iff_eq, decide_eq_true_eq]
          exact ⟨hs, (Decimal.digits_le_iff d precision hpos).mpr ⟨hlt, hs ▸ hle⟩⟩
      | _ => simp [Logical.carries] at h
  | _ => cases v <;> simp_all [Logical.carries, Logical.accepts]

/-! ### What goes wrong -/

/-- Numbers cannot be drawn below the bound: there are none, or the range is too wide. -/
def BadBound {f : BinaryFormat} (bound : Binary f) : Breakdown → Prop
  | .emptyRange => bound.isNaN = true ∨ bound.order ≤ 0
  | .wideRange => ¬ (bound.isFinite = true ∧ (Draw.span bound).isFinite = true)
  | _ => False

/-- Whether values of the logical type have a date. -/
def Logical.hasDate : Logical → Bool
  | .date => true
  | .timestampMillis => true
  | .timestampMicros => true
  | _ => false

/-- A draw for the type that the settings leave no room for. -/
inductive NoRoom (s : Settings) : Descriptor → Breakdown → Prop
  | float32 {b : Breakdown} :
      BadBound (Generator.singleBound s.floatBound) b → NoRoom s (.primitive .float32) b
  | float64 {b : Breakdown} : BadBound s.floatBound b → NoRoom s (.primitive .float64) b
  | bytes : s.maxBytesLength < s.minBytesLength → NoRoom s (.primitive .bytes) .emptyRange
  | string : s.maxStringLength < s.minStringLength → NoRoom s (.primitive .string) .emptyRange
  | years {kind : Logical} {first last : Date} :
      kind.hasDate = true → Date.ofCivil? s.startYear 1 1 = some first →
      Date.ofCivil? s.endYear 12 31 = some last → last.day < first.day →
      NoRoom s (.logical kind) .emptyRange
  | items {d : Descriptor} : s.maxItems < s.minItems → NoRoom s (.array d) .emptyRange
  | values {d : Descriptor} : s.maxItems < s.minItems → NoRoom s (.map d) .emptyRange
  | absence {d : Descriptor} :
      d.isOptional = true → Settings.isProbability s.nullProbability = false →
      NoRoom s d .notProbability

/-- What goes wrong with a logical type: the years lie outside the calendar, or a decimal cannot
have its digits. -/
inductive LogicalFault (s : Settings) : Logical → GenerationFault → Prop
  | startYear {kind : Logical} :
      kind.hasDate = true → Date.ofCivil? s.startYear 1 1 = none →
      LogicalFault s kind (.startYear s.startYear)
  | endYear {kind : Logical} :
      kind.hasDate = true → Date.ofCivil? s.endYear 12 31 = none →
      LogicalFault s kind (.endYear s.endYear)
  | scale {precision scale : Nat} :
      precision < scale →
      LogicalFault s (.decimal precision scale) (.scaleExceedsPrecision precision scale)
  | precision {precision scale : Nat} :
      mostPrecision < precision →
      LogicalFault s (.decimal precision scale) (.precisionTooGreat precision)

namespace Generator

variable {σ : Type} {α β : Type} {J : Registry → Prop}

/-- The registry of the state has the property. -/
abbrev OnRegistry (J : Registry → Prop) (s : GeneratorState σ) : Prop := J s.registry

/-- The registry of the state gives these answers. -/
def Knows (answer : String → Except Error Record) (s : GeneratorState σ) : Prop :=
  Answers answer s.registry

theorem knows_self (r : Registry) (source : σ) : Knows r.answer ⟨r, source⟩ := rfl

/-- The failure at a position. -/
def Position.failure (position : Position) (fault : GenerationFault) : Failure :=
  .error (.generation position.record position.field fault)

/-! ### Steps -/

section

variable {Q : α → Prop} {E : Failure → Prop}

theorem draw_gives [RandomSource σ] {d : Draw σ α} (h : ∀ s, Q (d s).1) :
    Gives (OnRegistry J) (draw d) Q E :=
  fun s hs => ⟨hs, h s.source⟩

theorem anyDraw_gives [RandomSource σ] (d : Draw σ α) :
    Gives (OnRegistry J) (draw d) (fun _ => True) E := draw_gives fun _ => trivial

theorem ask_gives [RandomSource σ] {m : RegistryM α} {F : Error → Prop}
    (h : Gives J m Q F) (hE : ∀ e, F e → E (.error e)) :
    Gives (OnRegistry (σ := σ) J) (ask m) Q E :=
  Gives.onPart (fun _ _ => rfl) h hE

theorem fail_gives {position : Position} {fault : GenerationFault}
    (h : E (position.failure fault)) :
    Gives (OnRegistry (σ := σ) J) (fail position fault) Q E := Gives.throw h

/-- So many results of a computation. -/
theorem repeatM_gives {m : GeneratorM σ α} (h : Gives (OnRegistry J) m Q E) (n : Nat) :
    Gives (OnRegistry J) (repeatM m n) (fun as => as.length = n ∧ ∀ a ∈ as, Q a) E := by
  induction n with
  | zero => exact Gives.pure (by simp)
  | succ n ih =>
      rw [repeatM]
      refine Gives.bind h fun a ha => ?_
      refine Gives.bind ih fun as has => ?_
      refine Gives.pure ⟨by simp [has.1], fun b hb => ?_⟩
      rcases List.mem_cons.mp hb with rfl | hb
      · exact ha
      · exact has.2 b hb

end

variable [RandomSource σ]

theorem run_between {low high : Int} (h : low ≤ high) (w : Draw.Width) (st : GeneratorState σ) :
    (between w low high).run st =
      (.ok (Draw.between w low high st.source).1,
        { st with source := (Draw.between w low high st.source).2 }) := by
  rw [between, if_neg (Int.not_lt.mpr h)]
  rfl

/-- A whole number lies between its bounds. -/
theorem between_gives (w : Draw.Width) (low high : Int) :
    Gives (OnRegistry (σ := σ) J) (between w low high) (fun n => low ≤ n ∧ n ≤ high)
      (fun e => high < low ∧ e = .breakdown .emptyRange) := by
  unfold between
  split
  · rename_i h
    exact Gives.throw ⟨h, rfl⟩
  · rename_i h
    exact draw_gives fun s => Draw.between_mem w low high (by omega) s

theorem count_gives (least most : Nat) :
    Gives (OnRegistry (σ := σ) J) (count least most) (fun n => least ≤ n ∧ n ≤ most)
      (fun e => most < least ∧ e = .breakdown .emptyRange) := by
  unfold count
  refine Gives.bind ((between_gives .w64 least most).mono_error ?_) fun n hn => ?_
  · rintro e ⟨h, rfl⟩
    exact ⟨by omega, rfl⟩
  · exact Gives.pure ⟨by omega, by omega⟩

/-- A binary number below a bound is finite. -/
theorem floatBelow_gives {f : BinaryFormat} (w : Draw.Width) (bound : Binary f) :
    Gives (OnRegistry (σ := σ) J) (floatBelow w bound) (fun x => x.isFinite = true)
      (fun e => ∃ b, BadBound bound b ∧ e = .breakdown b) := by
  unfold floatBelow
  split
  · rename_i h
    refine Gives.throw ⟨.emptyRange, ?_, rfl⟩
    simpa [BadBound] using h
  · rename_i h
    simp only [Bool.or_eq_true, decide_eq_true_eq, not_or] at h
    split
    · rename_i hfin
      rw [Bool.and_eq_true] at hfin
      exact draw_gives fun s => Draw.floatBelow_isFinite w (by omega) hfin.1 s
    · rename_i hfin
      refine Gives.throw ⟨.wideRange, ?_, rfl⟩
      rwa [Bool.and_eq_true] at hfin

/-- A thing that is chosen is one of those there are. -/
theorem choose?_gives (xs : List α) {E : Failure → Prop} :
    Gives (OnRegistry (σ := σ) J) (choose? xs)
      (fun x? => match x? with | some x => x ∈ xs | none => xs = []) E := by
  unfold choose?
  split
  · rename_i h
    exact Gives.pure (List.isEmpty_iff.mp h)
  · rename_i h
    have hlen : 0 < xs.length := List.length_pos_iff.mpr (mt List.isEmpty_iff.mpr h)
    have hdraw : Gives (OnRegistry (σ := σ) J) (draw (Draw.below .w32 xs.length))
        (fun i => i < xs.length) E := draw_gives fun s => Draw.below_lt .w32 _ hlen s
    refine Gives.bind hdraw fun i hi => ?_
    rw [List.getElem?_eq_getElem hi]
    exact Gives.pure (List.getElem_mem hi)

/-- What is drawn with a probability is possible with it. -/
theorem chance_gives (p : Binary64) :
    Gives (OnRegistry (σ := σ) J) (chance p)
      (fun b => if b then 0 < Draw.threshold p else Draw.threshold p ≠ pow2 64)
      (fun e => Settings.isProbability p = false ∧ e = .breakdown .notProbability) := by
  unfold chance
  split
  · refine draw_gives fun s => ?_
    by_cases h : Draw.threshold p = pow2 64
    · have he : (Draw.chance p s).1 = true := by
        simp only [Draw.chance, h, if_true]
        rfl
      rw [he, if_pos rfl, h]
      exact pow2_pos 64
    · have he : (Draw.chance p s).1 = decide ((Draw.word64 s).1.toNat < Draw.threshold p) := by
        simp only [Draw.chance, h, if_false]
        rfl
      rw [he]
      split
      · rename_i hlt
        exact Nat.zero_lt_of_lt (of_decide_eq_true hlt)
      · exact h
  · rename_i h
    exact Gives.throw ⟨by simpa using h, rfl⟩

/-! ### Keys -/

theorem le_foldl_max (ns : List Nat) (least n : Nat) (h : n ≤ least ∨ n ∈ ns) :
    n ≤ ns.foldl max least := by
  induction ns generalizing least with
  | nil => simpa using h
  | cons k rest ih =>
      refine ih (max least k) ?_
      rcases h with h | h
      · exact Or.inl (Nat.le_trans h (Nat.le_max_left _ _))
      · rcases List.mem_cons.mp h with rfl | h
        · exact Or.inl (Nat.le_max_right _ _)
        · exact Or.inr h

theorem longerKey_not_mem (taken : List String) : longerKey taken ∉ taken := by
  intro h
  have hle := le_foldl_max (taken.map String.length) 0 (longerKey taken).length
    (Or.inr (List.mem_map_of_mem h))
  have hlen : (longerKey taken).length = (taken.map String.length).foldl max 0 + 1 := by
    simp [longerKey]
  omega

theorem freshKeyF_gives (taken : List String) (tries : Nat) {E : Failure → Prop} :
    Gives (OnRegistry (σ := σ) J) (freshKeyF taken tries) (fun key => key ∉ taken) E := by
  induction tries with
  | zero => exact Gives.pure (longerKey_not_mem taken)
  | succ tries ih =>
      rw [freshKeyF]
      refine Gives.bind (anyDraw_gives _) fun key _ => ?_
      split
      · exact ih
      · rename_i h
        exact Gives.pure h

theorem freshKey_gives (taken : List String) {E : Failure → Prop} :
    Gives (OnRegistry (σ := σ) J) (freshKey taken) (fun key => key ∉ taken) E :=
  freshKeyF_gives taken Draw.patience

/-! ### Scalars -/

/-- **What is drawn for a primitive type has its shape.** -/
theorem primitive_gives (s : Settings) (kind : Primitive) :
    Gives (OnRegistry (σ := σ) J) (primitive s kind) (fun v => kind.carries v = true)
      (fun e => ∃ b, NoRoom s (.primitive kind) b ∧ e = .breakdown b) := by
  cases kind with
  | boolean => exact Gives.map (anyDraw_gives _) fun _ _ => rfl
  | int32 => exact Gives.bind (anyDraw_gives _) fun _ _ => Gives.pure rfl
  | int64 => exact Gives.bind (anyDraw_gives _) fun _ _ => Gives.pure rfl
  | float32 =>
      refine Gives.map ((floatBelow_gives .w32 (singleBound s.floatBound)).mono_error ?_)
        fun x hx => hx
      rintro e ⟨b, hb, rfl⟩
      exact ⟨b, .float32 hb, rfl⟩
  | float64 =>
      refine Gives.map ((floatBelow_gives .w64 s.floatBound).mono_error ?_) fun x hx => hx
      rintro e ⟨b, hb, rfl⟩
      exact ⟨b, .float64 hb, rfl⟩
  | bytes =>
      refine Gives.bind ((count_gives s.minBytesLength s.maxBytesLength).mono_error ?_)
        fun n _ => ?_
      · rintro e ⟨h, rfl⟩
        exact ⟨.emptyRange, .bytes h, rfl⟩
      · exact Gives.bind (anyDraw_gives _) fun _ _ => Gives.pure rfl
  | string =>
      refine Gives.bind ((count_gives s.minStringLength s.maxStringLength).mono_error ?_)
        fun n _ => ?_
      · rintro e ⟨h, rfl⟩
        exact ⟨.emptyRange, .string h, rfl⟩
      · exact Gives.bind (anyDraw_gives _) fun _ _ => Gives.pure rfl
  | null => exact Gives.pure rfl

/-- How a draw for a logical type fails. -/
def LogicalFails (s : Settings) (position : Position) (kind : Logical) (e : Failure) : Prop :=
  (∃ fault, LogicalFault s kind fault ∧ e = position.failure fault) ∨
    ∃ b, NoRoom s (.logical kind) b ∧ e = .breakdown b

/-- A date of the years of the settings. -/
theorem date_gives (s : Settings) (position : Position) {kind : Logical}
    (hk : kind.hasDate = true) :
    Gives (OnRegistry (σ := σ) J) (date s position) (fun _ => True)
      (LogicalFails s position kind) := by
  unfold date
  cases hfirst : Date.ofCivil? s.startYear 1 1 with
  | none => exact fail_gives (Or.inl ⟨_, .startYear hk hfirst, rfl⟩)
  | some first =>
      cases hlast : Date.ofCivil? s.endYear 12 31 with
      | none => exact fail_gives (Or.inl ⟨_, .endYear hk hlast, rfl⟩)
      | some last =>
          refine Gives.bind ((between_gives .w64 0 (last.day - first.day)).mono_error ?_)
            fun offset hoffset => ?_
          · rintro e ⟨h, rfl⟩
            exact Or.inr ⟨.emptyRange, .years hk hfirst hlast (by omega), rfl⟩
          · -- a day between two days of the calendar is one of the calendar
            have hmem : -96465292 ≤ first.day + offset ∧ first.day + offset ≤ 95026236 := by
              have := first.in_calendar
              have := last.in_calendar
              omega
            rw [Date.ofDay?, dif_pos hmem]
            exact Gives.pure trivial

/-- Whole seconds of the day and fewer units than a second has make a time of the day. -/
theorem exists_ofUnits? {perSecond n u : Nat} (hn : n < 86400) (hu : u < perSecond) :
    ∃ t, TimeOfDay.ofUnits? perSecond (n * perSecond + u) = some t := by
  have hpos : ¬ ((n : Int) * perSecond + u < 0) := not_lt.mpr (by positivity)
  have htoNat : ((n : Int) * perSecond + u).toNat = u + perSecond * n := by
    rw [← Nat.cast_mul, ← Nat.cast_add, Int.toNat_natCast, Nat.mul_comm, Nat.add_comm]
  have hdiv : (u + perSecond * n) / perSecond = n := by
    rw [Nat.add_mul_div_left _ _ (by omega), Nat.div_eq_of_lt hu, Nat.zero_add]
  have hmod : (u + perSecond * n) % perSecond = u := by
    rw [Nat.add_mul_mod_self_left, Nat.mod_eq_of_lt hu]
  have hnanos : u * (1000000000 / perSecond) < 1000000000 := by
    rcases Nat.eq_zero_or_pos (1000000000 / perSecond) with h0 | h0
    · simp [h0]
    · exact lt_of_lt_of_le (Nat.mul_lt_mul_of_pos_right hu h0) (Nat.mul_div_le _ _)
  -- there are no nanoseconds of a leap second among them
  have hparts : n < 86400 ∧ u * (1000000000 / perSecond) < 2000000000 ∧
      (1000000000 ≤ u * (1000000000 / perSecond) → n % 60 = 59) := by
    refine ⟨by omega, by omega, fun h => ?_⟩
    omega
  rw [TimeOfDay.ofUnits?, if_neg hpos, htoNat, hdiv, hmod, TimeOfDay.ofParts?, dif_pos hparts]
  exact ⟨_, rfl⟩

/-- A time of whole units is a time of the day. -/
theorem timeOfDay_gives {perSecond : Nat} (hp : 0 < perSecond) (position : Position)
    {E : Failure → Prop} :
    Gives (OnRegistry (σ := σ) J) (timeOfDay perSecond position) (fun _ => True) E := by
  unfold timeOfDay
  refine Gives.bind ((between_gives .w32 0 86399).mono_error ?_) fun seconds hseconds => ?_
  · rintro e ⟨h, rfl⟩
    omega
  refine Gives.bind ((between_gives .w32 0 (perSecond - 1)).mono_error ?_) fun units hunits => ?_
  · rintro e ⟨h, rfl⟩
    omega
  obtain ⟨n, rfl⟩ := Int.eq_ofNat_of_zero_le hseconds.1
  obtain ⟨u, rfl⟩ := Int.eq_ofNat_of_zero_le hunits.1
  obtain ⟨t, ht⟩ := exists_ofUnits? (show n < 86400 by omega) (show u < perSecond by omega)
  rw [ht]
  exact Gives.pure trivial

theorem instant_gives (s : Settings) {perSecond : Nat} (hp : 0 < perSecond) (position : Position)
    {kind : Logical} (hk : kind.hasDate = true) :
    Gives (OnRegistry (σ := σ) J) (instant s perSecond position) (fun _ => True)
      (LogicalFails s position kind) := by
  unfold instant
  refine Gives.bind (date_gives s position hk) fun _ _ => ?_
  exact Gives.bind (timeOfDay_gives hp position) fun _ _ => Gives.pure trivial

/-- A power of ten fits 128 bits with a sign exactly when it is that of a precision there is. -/
theorem pow10_lt_pow2_iff {precision : Nat} :
    pow10 precision < pow2 127 ↔ precision ≤ mostPrecision := by
  constructor
  · intro h
    by_contra hmost
    have hle : pow10 (mostPrecision + 1) ≤ pow10 precision :=
      Nat.pow_le_pow_right (by decide) (Nat.lt_of_not_le hmost)
    exact absurd (hle.trans_lt h) (by decide +kernel)
  · intro h
    have hle : pow10 precision ≤ pow10 mostPrecision := Nat.pow_le_pow_right (by decide) h
    exact hle.trans_lt (by decide +kernel)

/-- **What is asked for when a decimal is drawn** is a whole number between the greatest one of so
many digits and its opposite; it comes with the scale. -/
theorem exists_decimal_run {precision scale : Nat} (h : scale ≤ precision)
    (hmost : precision ≤ mostPrecision) (position : Position) (st : GeneratorState σ) :
    ∃ (d : Decimal) (source : σ),
      Draw.between .w128 (-((pow10 precision : Int) - 1)) (pow10 precision - 1) st.source =
        (d.unscaled, source) ∧
      d.unscaled.natAbs ≤ pow10 precision - 1 ∧ d.scale = scale ∧
      (decimal precision scale position).run st = (.ok d, { st with source }) := by
  have hpos := pow10_pos precision
  have hbits := pow10_lt_pow2_iff.mpr hmost
  have hrange : -((pow10 precision : Int) - 1) ≤ pow10 precision - 1 := by omega
  have hmem := Draw.between_mem .w128 _ _ hrange st.source
  rw [decimal, if_neg (Nat.not_lt.mpr h), if_neg (Nat.not_lt.mpr hmost), run_bind,
    run_between hrange]
  generalize Draw.between .w128 (-((pow10 precision : Int) - 1)) (pow10 precision - 1) st.source
    = drawn at hmem ⊢
  obtain ⟨u, source⟩ := drawn
  dsimp only at hmem ⊢
  have hfits : -(pow2 127 : Int) ≤ u ∧ u < pow2 127 := by omega
  have hbound : u.natAbs ≤ pow10 precision - 1 := by omega
  rw [Decimal.ofUnscaled?, dif_pos hfits]
  exact ⟨⟨u, scale, hfits⟩, source, rfl, hbound, rfl, rfl⟩

theorem decimal_run_of_lt {precision scale : Nat} (h : scale ≤ precision)
    (hmost : mostPrecision < precision) (position : Position) (st : GeneratorState σ) :
    (decimal precision scale position).run st =
      (.error (position.failure (.precisionTooGreat precision)), st) := by
  rw [decimal, if_neg (Nat.not_lt.mpr h), if_pos hmost]
  rfl

/-- **What is drawn for a logical type has its shape.** -/
theorem logical_gives (s : Settings) (position : Position) (kind : Logical) :
    Gives (OnRegistry (σ := σ) J) (logical s position kind) (fun v => kind.carries v = true)
      (LogicalFails s position kind) := by
  cases kind with
  | date => exact Gives.map (date_gives s position rfl) fun _ _ => rfl
  | timeMillis => exact Gives.map (timeOfDay_gives (by decide) position) fun _ _ => rfl
  | timeMicros => exact Gives.map (timeOfDay_gives (by decide) position) fun _ _ => rfl
  | timestampMillis => exact Gives.map (instant_gives s (by decide) position rfl) fun _ _ => rfl
  | timestampMicros => exact Gives.map (instant_gives s (by decide) position rfl) fun _ _ => rfl
  | uuid =>
      exact Gives.bind (anyDraw_gives _) fun _ _ => Gives.pure rfl
  | decimal precision scale =>
      refine Gives.map (Q := fun d : Decimal => d.scale = scale ∧ scale ≤ precision ∧
        d.unscaled.natAbs < pow10 precision) ?_ fun d hd => ?_
      · intro st hst
        by_cases h : precision < scale
        · rw [decimal, if_pos h]
          exact ⟨hst, Or.inl ⟨_, .scale h, rfl⟩⟩
        by_cases hmost : mostPrecision < precision
        · rw [decimal_run_of_lt (Nat.le_of_not_lt h) hmost]
          exact ⟨hst, Or.inl ⟨_, .precision hmost, rfl⟩⟩
        · obtain ⟨d, source, -, hd, hscale, hrun⟩ :=
            exists_decimal_run (Nat.le_of_not_lt h) (Nat.le_of_not_lt hmost) position st
          rw [hrun]
          exact ⟨hst, hscale, Nat.le_of_not_lt h, Nat.lt_of_le_pred (pow10_pos precision) hd⟩
      · simp [Logical.carries, hd]

end Generator

end RecordModel
