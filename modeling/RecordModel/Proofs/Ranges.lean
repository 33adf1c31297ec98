/-
**Ranges of the settings.**

The settings of a generator are checked once, before anything is drawn, so that every draw finds a
range with something in it whose width is a number.  This is so for the numbers of items, characters
and bytes, for the days between two years, for numbers of 64 bits and for the digits of a decimal.
Only the bound of numbers is checked in 64 bits alone.  Up to half of the least number of 32 bits it
is rounded to zero among these, and then a generation breaks down at every number of 32 bits that it
comes to.  It breaks down nowhere else.

Main definitions:

* `Settings.LeavesRoom` — the ranges that are left by the settings;
* `Descriptor.LeadsTo` — the types within a type and in the records that it leads to.

Main results:

* `Binary.nearestMagnitude_eq_zero_iff` — what is rounded to zero;
* `Generator.singleBound_eq_zero_iff` — the bounds that are zero among the numbers of 32 bits;
* `Settings.Valid.leavesRoom` — **settings without a problem leave room**;
* `Stuck.leadsTo_float32` — a breakdown comes from numbers of 32 bits that the type leads to;
* `Settings.Valid.breaks_down` — **a generation breaks down at numbers of 32 bits alone, when their
  bound is zero**;
* `point_breaks_down` — such a generation, by example.
-/

import RecordModel.Proofs.Drawn
import RecordModel.Proofs.ExactNumbers

set_option relaxedAutoImplicit false
set_option autoImplicit false

namespace RecordModel

/-! ### What is rounded to zero -/

/-- A quotient is rounded to zero up to a half. -/
theorem roundHalfEven_eq_zero_iff {num den : Nat} (hd : 0 < den) :
    roundHalfEven num den = 0 ↔ 2 * num ≤ den := by
  constructor
  · intro h
    have hnear := (roundHalfEven_near num den hd).1
    rw [h] at hnear
    omega
  · intro h
    have hq : num / den = 0 := Nat.div_eq_of_lt (by omega)
    have hr : num % den = num := Nat.mod_eq_of_lt (by omega)
    -- the remainder is at most half of the divisor, and zero is even
    unfold roundHalfEven
    simp only [hq, hr, Nat.zero_mod, if_true]
    rw [if_neg (not_lt.mpr h), ite_self]

namespace Binary

variable {f : BinaryFormat}

/-- **A quotient is rounded to zero up to half of the least number of the format.** -/
theorem nearestMagnitude_eq_zero_iff (hf : 0 < f.infinity) {num den : Nat} (hd : 0 < den) :
    nearestMagnitude f num den = 0 ↔ (num : ℚ) / den ≤ 2 ^ (f.leastExponent - 1) := by
  unfold nearestMagnitude
  split
  · rename_i hnum
    refine iff_of_true rfl ?_
    rw [hnum, Nat.cast_zero, zero_div]
    positivity
  · rename_i hnum
    have hn : 0 < num := Nat.pos_of_ne_zero hnum
    have hleast : f.leastExponent ≤ unitExponent f num den := le_max_left _ _
    have hunit : (0 : ℚ) < 2 ^ f.leastExponent := by positivity
    have hhalf : (2 : ℚ) ^ (f.leastExponent - 1) = 2 ^ f.leastExponent / 2 := by
      rw [zpow_sub_one₀ (by norm_num)]
      rfl
    dsimp only
    rw [Nat.min_eq_zero_iff, or_iff_right hf.ne', Nat.add_eq_zero_iff]
    rcases hleast.eq_or_lt with heq | hlt
    · -- in the least unit the quotient itself is rounded
      have hpos := inUnits_pos num hd f.leastExponent
      have hposq : (0 : ℚ) < (inUnits num den f.leastExponent).2 := by exact_mod_cast hpos
      rw [← heq, sub_self, Int.toNat_zero, Nat.zero_mul, roundHalfEven_eq_zero_iff hpos,
        inUnits_ratio num hd f.leastExponent, hhalf, div_mul_eq_mul_div,
        div_le_div_iff₀ hposq two_pos, and_iff_right rfl, mul_comm _ ((2 : ℚ) ^ f.leastExponent),
        mul_assoc, mul_le_mul_iff_right₀ hunit]
      norm_cast
      rw [Nat.mul_comm]
    · -- a greater unit is called for by a greater quotient
      refine iff_of_false (fun h => ?_) (fun h => ?_)
      · have hplaces := Nat.mul_eq_zero.mp h.1
        have := pow2_pos f.fractionBits
        omega
      · have hle := (unit_le hn hd hlt).trans h
        have := (zpow_le_zpow_iff_right₀ (one_lt_two : (1 : ℚ) < 2)).mp hle
        omega

/-- Finite numbers have the order of their magnitudes. -/
theorem size_le_size {x y : Binary f} (hy : y.isFinite = true) (h : x.magnitude ≤ y.magnitude) :
    x.size ≤ y.size := by
  by_contra hlt
  obtain ⟨num, den, hd, hv, -⟩ := ofScaled_eq (f := f) false y.significand y.exponent
  have hle : nearestMagnitude f num den ≤ x.magnitude :=
    nearestMagnitude_le_magnitude hd x (hv.trans_le (not_le.mp hlt).le)
  rw [nearestMagnitude_eq_magnitude hy hd hv] at hle
  have heq : x.magnitude = y.magnitude := le_antisymm h hle
  refine hlt (le_of_eq ?_)
  simp only [size, significand, exponent, exponentField, fraction, heq]
  rfl

theorem two_mul_size {x y : Binary f} (hs : x.significand = y.significand)
    (he : y.exponent = x.exponent + 1) : 2 * x.size = y.size := by
  rw [size, size, hs, he, zpow_add_one₀ two_ne_zero]
  ring

/-- The greatest number of a format. -/
def greatest (f : BinaryFormat) : Binary f := ofMagnitude false f.greatest

theorem greatest_isFinite (hf : 0 < f.infinity) : (greatest f).isFinite = true := by
  have hlt : f.greatest < f.infinity := Nat.sub_lt hf Nat.one_pos
  rw [isFinite_iff, greatest, ofMagnitude_magnitude _ _ (hlt.trans (infinity_lt f))]
  exact hlt

theorem span_isFinite (hf : 0 < f.infinity) {bound half : Binary f}
    (hsign : bound.negative = false) (hle : bound.magnitude ≤ half.magnitude)
    (hhalf : half.isFinite = true) (htwice : 2 * half.size = (greatest f).size) :
    (Draw.span bound).isFinite = true := by
  have hsize := size_le_size hhalf hle
  have htop := greatest_isFinite hf
  rw [isFinite_iff] at htop ⊢
  refine lt_of_le_of_lt (ofDyadic_magnitude_le ?_) htop
  rw [Dyadic.value_add, dyadic_value hsign, abs_of_nonneg (by linarith [size_nonneg bound])]
  linarith

theorem narrow_magnitude_eq_zero_iff {x : Binary64} (hx : x.isFinite = true) :
    x.narrow.magnitude = 0 ↔ x.size ≤ 2 ^ (-150 : Int) := by
  obtain ⟨num, den, hd, hv, hm, -⟩ := convert_parts hx .single
  rw [narrow, hm, nearestMagnitude_eq_zero_iff (by decide) hd, hv]
  exact Iff.rfl

theorem less_iff {x y : Binary f} (hx : x.isNaN = false) (hy : y.isNaN = false)
    (hnx : x.negative = false) (hny : y.negative = false) :
    x.less y = true ↔ x.magnitude < y.magnitude := by
  simp [less, order, hx, hy, hnx, hny]

end Binary

/-! ### The bounds of numbers -/

namespace Generator

open Binary

/-- Half the greatest number of 32 bits, among those of 64 bits. -/
def singleLimit : Binary64 := .ofScaled false (pow2 24 - 1) 103

theorem singleBound_eq (bound : Binary64) :
    singleBound bound = if singleLimit.less bound then singleLimit.narrow else bound.narrow := rfl

theorem singleLimit_size : singleLimit.size = (2 ^ 24 - 1) * 2 ^ 103 := by
  have hs : singleLimit.significand = (2 ^ 24 - 1) * 2 ^ 29 := by decide +kernel
  have he : singleLimit.exponent = 74 := by decide +kernel
  rw [size, hs, he]
  norm_num

/-- The limit is a number of 32 bits. -/
theorem narrow_singleLimit_size : singleLimit.narrow.size = singleLimit.size := by
  have hs : singleLimit.narrow.significand = 2 ^ 24 - 1 := by decide +kernel
  have he : singleLimit.narrow.exponent = 103 := by decide +kernel
  rw [size, hs, he, singleLimit_size]
  norm_num

section

variable {bound : Binary64} (hfin : bound.isFinite = true) (hpos : 0 < bound.order)

include hfin hpos

theorem singleLimit_less_iff :
    singleLimit.less bound = true ↔ singleLimit.magnitude < bound.magnitude :=
  less_iff (by decide +kernel) (isNaN_of_isFinite hfin) (by decide +kernel)
    (negative_of_order_pos hpos)

/-- The bound of numbers of 32 bits is not negative and at most the limit. -/
theorem singleBound_bounds :
    (singleBound bound).negative = false ∧
      (singleBound bound).magnitude ≤ singleLimit.narrow.magnitude := by
  rw [singleBound_eq]
  split
  · exact ⟨by decide +kernel, le_rfl⟩
  · rename_i h
    have hle := not_lt.mp (mt (singleLimit_less_iff hfin hpos).mpr h)
    have hsize := size_le_size (y := singleLimit) (by decide +kernel) hle
    obtain ⟨num, den, hd, hv, hm, hn⟩ := convert_parts hfin .single
    refine ⟨hn.trans (negative_of_order_pos hpos), ?_⟩
    rw [narrow, hm]
    exact nearestMagnitude_le_magnitude hd _ (hv.trans_le (hsize.trans_eq narrow_singleLimit_size.symm))

/-- **The bound of numbers of 32 bits is zero up to half of the least one.** -/
theorem singleBound_eq_zero_iff :
    (singleBound bound).magnitude = 0 ↔ bound.size ≤ 2 ^ (-150 : Int) := by
  rw [singleBound_eq]
  split
  · rename_i h
    have hle := ((singleLimit_less_iff hfin hpos).mp h).le
    have hsize := size_le_size hfin hle
    rw [singleLimit_size] at hsize
    refine iff_of_false (by decide +kernel) (not_le.mpr (lt_of_lt_of_le ?_ hsize))
    norm_num
  · exact narrow_magnitude_eq_zero_iff hfin

/-- Numbers of 32 bits have a bound unless it is rounded to zero, and then there are none below
it. -/
theorem badBound_singleBound_iff {b : Breakdown} :
    BadBound (singleBound bound) b ↔ b = .emptyRange ∧ bound.size ≤ 2 ^ (-150 : Int) := by
  obtain ⟨hsign, hle⟩ := singleBound_bounds hfin hpos
  have hlimit : singleLimit.narrow.isFinite = true := by decide +kernel
  have hfinite : (singleBound bound).isFinite = true := by
    rw [isFinite_iff] at hlimit ⊢
    omega
  have hspan : (Draw.span (singleBound bound)).isFinite = true :=
    span_isFinite (by decide) hsign hle hlimit
      (two_mul_size (by decide +kernel) (by decide +kernel))
  rw [← singleBound_eq_zero_iff hfin hpos]
  cases b with
  | emptyRange => simp [BadBound, isNaN_of_isFinite hfinite, order, hsign]
  | wideRange => simp [BadBound, hfinite, hspan]
  | _ => simp [BadBound]

end

end Generator

namespace Settings

open Binary

/-- Bounds up to the greatest one leave numbers of 64 bits. -/
theorem not_badBound {bound : Binary64} (hfin : bound.isFinite = true) (hpos : 0 < bound.order)
    (hle : greatestFloatBound.less bound = false) (b : Breakdown) : ¬ BadBound bound b := by
  have hsign := negative_of_order_pos hpos
  have hmag : bound.magnitude ≤ greatestFloatBound.magnitude := by
    refine not_lt.mp (mt (less_iff ?_ (isNaN_of_isFinite hfin) ?_ hsign).mpr ?_)
    · decide +kernel
    · decide +kernel
    · simp [hle]
  have hspan : (Draw.span bound).isFinite = true :=
    span_isFinite (by decide) hsign hmag (by decide +kernel)
      (two_mul_size (by decide +kernel) (by decide +kernel))
  cases b with
  | emptyRange => simp [BadBound, isNaN_of_isFinite hfin, not_le.mpr hpos]
  | wideRange => simp [BadBound, hfin, hspan]
  | _ => simp [BadBound]

end Settings

/-! ### Days between years -/

theorem Date.day_of_ofCivil? {year : Int} {month day : Nat} {d : Date}
    (h : Date.ofCivil? year month day = some d) : d.day = Date.dayOf year month day := by
  unfold Date.ofCivil? at h
  split at h
  · exact ((Date.ofDay?_eq_some_iff _ d).mp h).symm
  · cases h

theorem Date.dayOf_le_dayOf {year year' : Int} (h : year ≤ year') :
    Date.dayOf year 1 1 ≤ Date.dayOf year' 12 31 := by
  simp only [Date.dayOf]
  norm_num
  omega

/-! ### Ranges of settings -/

/-- The ranges that are left by the settings: there are numbers of items, of characters and of
bytes, a probability, numbers of 64 bits, and days.  Numbers of 32 bits have their own bound, below
which there are none when it is rounded to zero. -/
structure Settings.LeavesRoom (s : Settings) : Prop where
  nesting : 0 < s.nestingDepth
  items : s.minItems ≤ s.maxItems
  string : s.minStringLength ≤ s.maxStringLength
  bytes : s.minBytesLength ≤ s.maxBytesLength
  absence : isProbability s.nullProbability = true
  float64 (b : Breakdown) : ¬ BadBound s.floatBound b
  float32 (b : Breakdown) : BadBound (Generator.singleBound s.floatBound) b ↔
    b = .emptyRange ∧ s.floatBound.size ≤ 2 ^ (-150 : Int)
  years {first last : Date} : Date.ofCivil? s.startYear 1 1 = some first →
    Date.ofCivil? s.endYear 12 31 = some last → first.day ≤ last.day

/-- **Settings without a problem leave room.** -/
theorem Settings.Valid.leavesRoom {s : Settings} (h : s.Valid) : s.LeavesRoom := by
  unfold Settings.Valid Settings.problem? at h
  split_ifs at h with hself hnesting hprob hitems hstring hbytes hbound hgreat hyears
  simp only [Bool.or_eq_true, Bool.not_eq_true', decide_eq_true_eq, not_or, Bool.not_eq_false,
    not_le] at hbound
  obtain ⟨hfin, hpos⟩ := hbound
  exact {
    nesting := Nat.pos_of_ne_zero hnesting
    items := not_lt.mp hitems
    string := not_lt.mp hstring
    bytes := not_lt.mp hbytes
    absence := by simpa using hprob
    float64 := not_badBound hfin hpos (by simpa using hgreat)
    float32 := fun b => Generator.badBound_singleBound_iff hfin hpos
    years := fun hfirst hlast => by
      rw [Date.day_of_ofCivil? hfirst, Date.day_of_ofCivil? hlast]
      exact Date.dayOf_le_dayOf (not_lt.mp hyears) }

/-- Where there is room, a draw has none for numbers of 32 bits alone. -/
theorem Settings.LeavesRoom.noRoom_iff {s : Settings} (hs : s.LeavesRoom) {d : Descriptor}
    {b : Breakdown} :
    NoRoom s d b ↔
      d = .primitive .float32 ∧ b = .emptyRange ∧ s.floatBound.size ≤ 2 ^ (-150 : Int) := by
  constructor
  · intro h
    cases h with
    | float32 hb => exact ⟨rfl, (hs.float32 b).mp hb⟩
    | float64 hb => exact absurd hb (hs.float64 b)
    | bytes hlt => exact absurd hs.bytes (not_le.mpr hlt)
    | string hlt => exact absurd hs.string (not_le.mpr hlt)
    | years _ hfirst hlast hlt => exact absurd (hs.years hfirst hlast) (not_le.mpr hlt)
    | items hlt => exact absurd hs.items (not_le.mpr hlt)
    | values hlt => exact absurd hs.items (not_le.mpr hlt)
    | absence _ hp => simp [hs.absence] at hp
  · rintro ⟨rfl, hb⟩
    exact .float32 ((hs.float32 b).mpr hb)

/-! ### What a type leads to -/

/-- The type stands within the other one, or within a field of a record that it leads to. -/
def Descriptor.LeadsTo (answer : String → Except Error Record) (d e : Descriptor) : Prop :=
  Within e d ∨ ∃ name record, d.Reaches answer name ∧ answer name = .ok record ∧
    ∃ f ∈ record.fields, Within e f.type

namespace Descriptor.LeadsTo

variable {answer : String → Except Error Record} {d d' e : Descriptor}

theorem of_within (h : d.LeadsTo answer e) (hw : Within d d') : d'.LeadsTo answer e := by
  rcases h with h | ⟨name, record, hreach, hf⟩
  · exact Or.inl (h.trans hw)
  · exact Or.inr ⟨name, record, hreach.of_within hw, hf⟩

theorem of_mem_alternatives (h : d.LeadsTo answer e) (he : e.isNull = false)
    (hd : d ∈ d'.alternatives) : d'.LeadsTo answer e := by
  rcases h with h | ⟨name, record, hreach, hf⟩
  · exact Or.inl (within_of_mem_alternatives he hd h)
  · exact Or.inr ⟨name, record, hreach.of_mem_alternatives hd, hf⟩

theorem of_field {name : String} {record : Record} {f : Field} (h : f.type.LeadsTo answer e)
    (hr : answer name = .ok record) (hf : f ∈ record.fields) :
    (Descriptor.reference name).LeadsTo answer e := by
  rcases h with h | ⟨other, record', hreach, hf'⟩
  · exact Or.inr ⟨name, record, .reference_self, hr, f, hf, h⟩
  · exact Or.inr ⟨other, record', hreach.of_field hr hf, hf'⟩

end Descriptor.LeadsTo

/-! ### Breakdowns -/

section

variable {answer : String → Except Error Record} {s : Settings}

/-- Where there is room, a breakdown comes from numbers of 32 bits that the type leads to. -/
theorem Stuck.leadsTo_float32 (hs : s.LeavesRoom) {levels : Nat} {chain : List String}
    {position : Generator.Position} {d : Descriptor} {b : Breakdown}
    (h : Stuck answer s levels chain position d (.breakdown b)) :
    d.LeadsTo answer (.primitive .float32) ∧ b = .emptyRange ∧
      s.floatBound.size ≤ 2 ^ (-150 : Int) := by
  generalize hb : Failure.breakdown b = e at h
  induction h with
  | noRoom hroom =>
      cases hb
      obtain ⟨rfl, hempty⟩ := hs.noRoom_iff.mp hroom
      exact ⟨Or.inl .refl, hempty⟩
  | items _ _ ih => exact (ih hb).imp_left fun h => h.of_within (.items .refl)
  | values _ _ ih => exact (ih hb).imp_left fun h => h.of_within (.values .refl)
  | member _ hm _ _ _ ih => exact (ih hb).imp_left fun h => h.of_mem_alternatives rfl hm
  | field _ hr hf _ ih => exact (ih hb).imp_left fun h => h.of_field hr hf
  | _ => cases hb

variable {σ : Type} [RandomSource σ]

open Stateful

theorem Generator.float32_gives (hs : s.LeavesRoom)
    (hbound : s.floatBound.size ≤ 2 ^ (-150 : Int)) :
    Gives (Knows (σ := σ) answer) (primitive s .float32) (fun _ => False)
      (fun e => e = .breakdown .emptyRange) := by
  have hempty := (hs.float32 .emptyRange).mpr ⟨rfl, hbound⟩
  refine Gives.map (Q := fun _ => False) ?_ fun _ h => h.elim
  rw [floatBelow, if_pos (by simpa [BadBound] using hempty)]
  exact Gives.throw rfl

/-- With such a bound no instance is drawn of a record whose fields are numbers of 32 bits. -/
theorem drawInstance_gives_emptyRange (ha : Settled answer) (hs : s.Valid)
    (hbound : s.floatBound.size ≤ 2 ^ (-150 : Int)) {name : String} {record : Record}
    (hrecord : answer name = .ok record) {given : List (String × Value)}
    (hgiven : ∀ k ∈ Keyed.keys given, (record.field? k).isSome)
    (hsingle : ∀ f ∈ record.fields, Keyed.get? f.name given = none →
      f.type = .primitive .float32)
    (hdrawn : ∃ f ∈ record.fields, Keyed.get? f.name given = none) :
    Gives (Generator.Knows (σ := σ) answer) (drawInstance s name given) (fun _ => False)
      (fun e => e = .breakdown .emptyRange) := by
  have hroom := hs.leavesRoom
  obtain ⟨levels, hlevels⟩ := Nat.exists_eq_succ_of_ne_zero hroom.nesting.ne'
  -- the settings, the record and the given names are right, and every field that is drawn fails
  have hinstance := drawInstance_gives_of_fields (σ := σ) (Answers.lasting answer) ha s trivial given
    (P := fun _ _ => False) (E := fun e => e = .breakdown .emptyRange)
    (fun problem hp => by cases hs.symm.trans hp) (fun e he => by cases hrecord.symm.trans he)
    (fun record' hr field hk => by
      cases hrecord.symm.trans hr
      simpa [hk.unknown] using hgiven field hk.mem)
    (fun record' hr f hf hg => by
      cases hrecord.symm.trans hr
      rw [hsingle f hf hg, hlevels, Generator.valueF]
      exact Generator.float32_gives hroom hbound)
  refine hinstance.mono (fun i hi => ?_) fun _ he => he
  obtain ⟨-, record', hr, -, hfills⟩ := hi
  cases hrecord.symm.trans hr
  obtain ⟨f, hf, hg⟩ := hdrawn
  obtain ⟨e, he⟩ := exists_entry hfills.names hf
  exact hfills.drawn _ he hg

end

/-- **A generation breaks down at numbers of 32 bits alone, when their bound is zero.**  Settings
without a problem leave room.  Where a generation breaks down all the same, the bound of numbers is
at most half of the least number of 32 bits, and a field that is not given a value leads to such
numbers.  With such a bound a generation breaks down whenever all fields that it draws are such
numbers. -/
theorem Settings.Valid.breaks_down {σ : Type} [RandomSource σ] {s : Settings} (hs : s.Valid)
    {r : Registry} (hr : r.Reached) (name : String) (given : List (String × Value)) (source : σ) :
    s.LeavesRoom ∧
      (∀ (t : GeneratorState σ) (b : Breakdown),
        (drawInstance s name given).run ⟨r, source⟩ = (.error (.breakdown b), t) →
        b = .emptyRange ∧ s.floatBound.size ≤ 2 ^ (-150 : Int) ∧
          ∃ record, r.answer name = .ok record ∧ ∃ f ∈ record.fields,
            Keyed.get? f.name given = none ∧
              f.type.LeadsTo r.answer (.primitive .float32)) ∧
      (s.floatBound.size ≤ 2 ^ (-150 : Int) → ∀ record, r.answer name = .ok record →
        (∀ k ∈ Keyed.keys given, (record.field? k).isSome) →
        (∀ f ∈ record.fields, Keyed.get? f.name given = none →
          f.type = .primitive .float32) →
        (∃ f ∈ record.fields, Keyed.get? f.name given = none) →
        ∃ t, (drawInstance s name given).run ⟨r, source⟩ =
          (.error (.breakdown .emptyRange), t)) := by
  have ha := hr.settled
  refine ⟨hs.leavesRoom, fun t b hrun => ?_, fun hbound record hrecord hgiven hsingle hdrawn => ?_⟩
  · obtain ⟨-, hno⟩ := (drawInstance_gives ha s name given).of_run_error
      (Generator.knows_self r source) hrun
    generalize hb : Failure.breakdown b = e at hno
    cases hno with
    | field hrecord hf hg hstuck =>
        subst hb
        obtain ⟨hleads, hempty, hbound⟩ := hstuck.leadsTo_float32 hs.leavesRoom
        exact ⟨hempty, hbound, _, hrecord, _, hf, hg, hleads⟩
    | _ => cases hb
  · have hgives := drawInstance_gives_emptyRange (σ := σ) ha hs hbound hrecord hgiven hsingle hdrawn
    obtain ⟨_, t, hrun, rfl⟩ := hgives.exists_run_error (Generator.knows_self r source)
    exact ⟨t, hrun⟩

/-! ### Points -/

/-- A record with a number of 32 bits. -/
def pointDeclaration : DeclaredRecord :=
  ⟨"Point", none, none, [], [⟨"x", .float32, none, ⟨none, none, none, none, none, []⟩⟩]⟩

/-- The registry with that record. -/
def pointRegistry : Registry := ((Registry.declare pointDeclaration).run Registry.empty).2

theorem pointRegistry_reached : pointRegistry.Reached := .declare _ (.new none)

/-- The record of the points. -/
def pointRecord : Record :=
  ⟨"Point", none, none, [], [⟨"x", .primitive .float32, none, 0, none, []⟩]⟩

theorem pointRegistry_answer : pointRegistry.answer "Point" = .ok pointRecord := by
  with_unfolding_all rfl

/-- Settings with half of the least number of 32 bits as the bound. -/
def tinySettings : Settings := { floatBound := ⟨0x3690000000000000⟩ }

theorem tinySettings_valid : tinySettings.Valid := by
  unfold Settings.Valid
  decide +kernel

theorem tinySettings_bound : tinySettings.floatBound.size ≤ 2 ^ (-150 : Int) := by
  have hs : tinySettings.floatBound.significand = 2 ^ 52 := by decide +kernel
  have he : tinySettings.floatBound.exponent = -202 := by decide +kernel
  rw [Binary.size, hs, he]
  norm_num

/-- No generation of points comes to its end with these settings. -/
theorem no_point_is_drawn :
    tinySettings.Valid ∧ pointRegistry.Reached ∧ ∀ source : SplitMix, ∃ t,
      (drawInstance tinySettings "Point" []).run ⟨pointRegistry, source⟩ =
        (.error (.breakdown .emptyRange), t) := by
  refine ⟨tinySettings_valid, pointRegistry_reached, fun source => ?_⟩
  refine (tinySettings_valid.breaks_down pointRegistry_reached "Point" [] source).2.2
    tinySettings_bound pointRecord pointRegistry_answer (by simp [Keyed.keys]) ?_ ?_
  · intro f hf _
    rw [List.mem_singleton.mp hf]
  · exact ⟨_, List.mem_singleton_self _, rfl⟩

/-- **Settings without a problem and a record that is there do not keep a generation from breaking
down.** -/
theorem point_breaks_down :
    tinySettings.problem? = none ∧ pointRegistry.answer "Point" = .ok pointRecord ∧
      ((drawInstance tinySettings "Point" []).run
        (⟨pointRegistry, ⟨[], 0⟩⟩ : GeneratorState SplitMix)).1 =
          .error (.breakdown .emptyRange) := by
  exact ⟨tinySettings_valid, pointRegistry_answer, by with_unfolding_all rfl⟩

end RecordModel
