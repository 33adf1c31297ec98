/-
**What rounding does not pass.**

Rounding a quotient to the nearest number of a format does not pass a number of the format: what is
at most such a number is at most that number after rounding.  The numbers that are drawn between a
finite bound and its opposite are therefore finite.

A quotient is compared with the numbers of a format through its place between two powers of two.
The unit that rounding measures it in leaves it a significand with the right number of bits, or is
the least unit there is.

Main definitions:

* `Dyadic.value` — a dyadic number as a rational number;
* `Binary.size` — the absolute value of a finite number.

Main results:

* `Binary.lt_unit`, `Binary.unit_le` — the quotient in its unit has at most the bits of a
  significand, and no fewer unless the unit is the least one;
* `Binary.nearestMagnitude_le_magnitude` — **rounding does not pass a number of the format**;
* `Draw.floatBelow_isFinite` — **a number that is drawn below a finite bound is finite**.
-/

import Mathlib.Algebra.Order.Field.Power
import Mathlib.Data.Nat.Log
import Mathlib.Data.Rat.Defs
import Mathlib.Tactic.FieldSimp
import Mathlib.Tactic.Linarith
import Mathlib.Tactic.Ring
import RecordModel.Random.Sampling

set_option relaxedAutoImplicit false
set_option autoImplicit false

namespace RecordModel

theorem cast_pow2 (n : Nat) : (pow2 n : ℚ) = 2 ^ n := by
  change ((2 ^ n : ℕ) : ℚ) = 2 ^ n
  exact Nat.cast_pow 2 n

/-- A quotient that is at most a whole number is at most that number after rounding. -/
theorem roundHalfEven_le {num den k : Nat} (hd : 0 < den) (h : num ≤ k * den) :
    roundHalfEven num den ≤ k := by
  have hdm := Nat.div_add_mod num den
  have hq : num / den ≤ k := Nat.div_le_of_le_mul (by rwa [Nat.mul_comm])
  rcases Nat.lt_or_ge (num / den) k with hlt | hge
  · unfold roundHalfEven
    simp only []
    repeat' split
    all_goals omega
  · -- the quotient is the whole number itself, so that there is no remainder
    have hk : num / den = k := Nat.le_antisymm hq hge
    have hr : num % den = 0 := by
      rw [hk, Nat.mul_comm] at hdm
      omega
    unfold roundHalfEven
    simp only [hr, hk, Nat.mul_zero, hd, if_true, Nat.le_refl]

namespace Dyadic

/-- The value as a rational number. -/
def value (x : Dyadic) : ℚ := x.mantissa * 2 ^ x.exponent

theorem two_zpow_eq {e e' : Int} (h : e ≤ e') :
    (2 : ℚ) ^ e' = (pow2 (e' - e).toNat : ℚ) * 2 ^ e := by
  have he : e' = ((e' - e).toNat : Int) + e := by omega
  conv_lhs => rw [he]
  rw [zpow_add₀ (by norm_num), zpow_natCast, cast_pow2]

theorem value_add (x y : Dyadic) : (x.add y).value = x.value + y.value := by
  have hx := two_zpow_eq (min_le_left x.exponent y.exponent)
  have hy := two_zpow_eq (min_le_right x.exponent y.exponent)
  simp only [value, add]
  rw [hx, hy]
  push_cast
  ring

theorem value_neg (x : Dyadic) : x.neg.value = -x.value := by
  simp [value, neg]

end Dyadic

namespace Binary

variable {f : BinaryFormat}

/-! ### Quotients in units -/

theorem inUnits_pos (num : Nat) {den : Nat} (hd : 0 < den) (e : Int) :
    0 < (inUnits num den e).2 := by
  unfold inUnits
  split
  · exact Nat.mul_pos hd (pow2_pos _)
  · exact hd

/-- The quotient in units of `2 ^ e` is the quotient divided by the unit. -/
theorem inUnits_value (num : Nat) {den : Nat} (hd : 0 < den) (e : Int) :
    ((inUnits num den e).1 : ℚ) * 2 ^ e = num / den * (inUnits num den e).2 := by
  have hd' : (den : ℚ) ≠ 0 := by exact_mod_cast Nat.pos_iff_ne_zero.mp hd
  unfold inUnits
  split
  · rename_i h
    have he : (2 : ℚ) ^ e = 2 ^ e.toNat := by
      conv_lhs => rw [← Int.toNat_of_nonneg h]
      exact zpow_natCast _ _
    push_cast
    rw [he, cast_pow2]
    field_simp
  · rename_i h
    have he : (2 : ℚ) ^ (-e).toNat * 2 ^ e = 1 := by
      rw [← zpow_natCast, ← zpow_add₀ (by norm_num), Int.toNat_of_nonneg (by omega)]
      simp
    push_cast
    rw [cast_pow2, mul_assoc, he]
    field_simp

theorem inUnits_ratio (num : Nat) {den : Nat} (hd : 0 < den) (e : Int) :
    (num : ℚ) / den = (inUnits num den e).1 / (inUnits num den e).2 * 2 ^ e := by
  have hp : (0 : ℚ) < (inUnits num den e).2 := by exact_mod_cast inUnits_pos num hd e
  rw [div_mul_eq_mul_div, inUnits_value num hd e, mul_div_cancel_right₀ _ hp.ne']

theorem inUnits_le_iff (num : Nat) {den : Nat} (hd : 0 < den) (e : Int) (k : Nat) :
    (inUnits num den e).1 ≤ k * (inUnits num den e).2 ↔ (num : ℚ) / den ≤ k * 2 ^ e := by
  have hp : (0 : ℚ) < (inUnits num den e).2 := by exact_mod_cast inUnits_pos num hd e
  have he : (0 : ℚ) < 2 ^ e := by positivity
  rw [inUnits_ratio num hd e, mul_le_mul_iff_left₀ he, div_le_iff₀ hp]
  norm_cast

theorem le_inUnits_iff (num : Nat) {den : Nat} (hd : 0 < den) (e : Int) (k : Nat) :
    k ≤ (inUnits num den e).1 / (inUnits num den e).2 ↔ (k : ℚ) * 2 ^ e ≤ num / den := by
  have hp : (0 : ℚ) < (inUnits num den e).2 := by exact_mod_cast inUnits_pos num hd e
  have he : (0 : ℚ) < 2 ^ e := by positivity
  rw [Nat.le_div_iff_mul_le (inUnits_pos num hd e), inUnits_ratio num hd e,
    mul_le_mul_iff_left₀ he, le_div_iff₀ hp]
  norm_cast

/-- A quotient lies between the powers of two of its parts. -/
theorem log2_bounds {num den : Nat} (hn : 0 < num) (hd : 0 < den) :
    (2 : ℚ) ^ ((num.log2 : Int) - den.log2 - 1) ≤ num / den ∧
      (num : ℚ) / den < 2 ^ ((num.log2 : Int) - den.log2 + 1) := by
  have hn₁ : (2 : ℚ) ^ num.log2 ≤ num := by exact_mod_cast Nat.log2_self_le hn.ne'
  have hn₂ : (num : ℚ) < 2 ^ (num.log2 + 1) := by exact_mod_cast Nat.lt_log2_self
  have hd₁ : (2 : ℚ) ^ den.log2 ≤ den := by exact_mod_cast Nat.log2_self_le hd.ne'
  have hd₂ : (den : ℚ) < 2 ^ (den.log2 + 1) := by exact_mod_cast Nat.lt_log2_self
  have hd₀ : (0 : ℚ) < den := by exact_mod_cast hd
  have hlow : (2 : ℚ) ^ ((num.log2 : Int) - den.log2 - 1) = 2 ^ num.log2 / 2 ^ (den.log2 + 1) := by
    rw [sub_sub, zpow_sub₀ (by norm_num), zpow_natCast]
    norm_cast
  have hhigh : (2 : ℚ) ^ ((num.log2 : Int) - den.log2 + 1) = 2 ^ (num.log2 + 1) / 2 ^ den.log2 := by
    rw [show (num.log2 : Int) - den.log2 + 1 = (num.log2 + 1 : Nat) - (den.log2 : Nat) by omega,
      zpow_sub₀ (by norm_num), zpow_natCast, zpow_natCast]
  rw [hlow, hhigh]
  constructor
  · exact div_le_div₀ (by positivity) hn₁ hd₀ hd₂.le
  · exact div_lt_div₀ hn₂ hd₁ (by positivity) (by positivity)

/-! ### The unit -/

/-- The first candidate for the exponent of the unit. -/
def firstExponent (f : BinaryFormat) (num den : Nat) : Int :=
  (num.log2 : Int) - den.log2 - 1 - f.fractionBits

/-- The unit that the quotient calls for, before it is held above the least one. -/
def wantedExponent (f : BinaryFormat) (num den : Nat) : Int :=
  let e := firstExponent f num den
  if pow2 (f.fractionBits + 1) ≤ (inUnits num den e).1 / (inUnits num den e).2 then e + 1 else e

theorem unitExponent_eq (num den : Nat) :
    unitExponent f num den = max f.leastExponent (wantedExponent f num den) := rfl

theorem too_long_iff (num : Nat) {den : Nat} (hd : 0 < den) (e : Int) (n : Nat) :
    pow2 n ≤ (inUnits num den e).1 / (inUnits num den e).2 ↔ (2 : ℚ) ^ (n + e) ≤ num / den := by
  rw [le_inUnits_iff num hd, cast_pow2, zpow_add₀ (by norm_num), zpow_natCast]

/-- In the unit that it calls for, a quotient has a significand of the right number of bits. -/
theorem wanted_bounds {num den : Nat} (hn : 0 < num) (hd : 0 < den) :
    (2 : ℚ) ^ (f.fractionBits + wantedExponent f num den) ≤ num / den ∧
      (num : ℚ) / den < 2 ^ (f.fractionBits + 1 + wantedExponent f num den) := by
  obtain ⟨hlow, hhigh⟩ := log2_bounds hn hd
  have hlong := too_long_iff num hd (firstExponent f num den) (f.fractionBits + 1)
  unfold wantedExponent
  simp only
  split
  · rename_i h
    have h' := hlong.mp h
    push_cast at h'
    constructor
    · convert h' using 2
      ring
    · convert hhigh using 2
      unfold firstExponent
      ring
  · rename_i h
    have h' := not_le.mp (mt hlong.mpr h)
    push_cast at h'
    constructor
    · convert hlow using 2
      unfold firstExponent
      ring
    · exact h'

/-- A quotient in its unit has at most the bits of a significand. -/
theorem lt_unit {num den : Nat} (hn : 0 < num) (hd : 0 < den) :
    (num : ℚ) / den < 2 ^ (f.fractionBits + 1 + unitExponent f num den) := by
  refine lt_of_lt_of_le (wanted_bounds (f := f) hn hd).2 (zpow_le_zpow_right₀ (by norm_num) ?_)
  have := le_max_right f.leastExponent (wantedExponent f num den)
  rw [unitExponent_eq]
  omega

/-- A quotient in its unit has no fewer bits than a significand, unless the unit is the least. -/
theorem unit_le {num den : Nat} (hn : 0 < num) (hd : 0 < den)
    (h : f.leastExponent < unitExponent f num den) :
    (2 : ℚ) ^ (f.fractionBits + unitExponent f num den) ≤ num / den := by
  rw [unitExponent_eq] at h ⊢
  have he : max f.leastExponent (wantedExponent f num den) = wantedExponent f num den := by omega
  rw [he]
  exact (wanted_bounds hn hd).1

/-! ### Magnitudes and sizes -/

/-- The absolute value of a finite number. -/
def size (x : Binary f) : ℚ := x.significand * 2 ^ x.exponent

theorem size_nonneg (x : Binary f) : 0 ≤ x.size := by
  unfold size
  positivity

theorem leastExponent_le_exponent (x : Binary f) : f.leastExponent ≤ x.exponent := by
  unfold exponent
  omega

theorem significand_lt (x : Binary f) : x.significand < pow2 (f.fractionBits + 1) := by
  have h : x.fraction < pow2 f.fractionBits := Nat.mod_lt _ (pow2_pos _)
  rw [pow2_succ]
  unfold significand
  split <;> omega

theorem le_significand (x : Binary f) (h : f.leastExponent < x.exponent) :
    pow2 f.fractionBits ≤ x.significand := by
  have hne : x.exponentField ≠ 0 := by
    intro h0
    simp [exponent, h0] at h
  rw [significand, if_neg hne]
  omega

/-- The magnitude counts the units from zero on. -/
theorem magnitude_eq (x : Binary f) :
    x.magnitude = (x.exponent - f.leastExponent).toNat * pow2 f.fractionBits + x.significand := by
  have hdm : x.exponentField * pow2 f.fractionBits + x.fraction = x.magnitude := by
    rw [Nat.mul_comm]
    exact Nat.div_add_mod x.magnitude (pow2 f.fractionBits)
  have he : (x.exponent - f.leastExponent).toNat = x.exponentField - 1 := by
    unfold exponent
    omega
  rw [he, ← hdm]
  unfold significand
  split
  · rename_i h0
    simp [h0]
  · rename_i h0
    obtain ⟨k, hk⟩ := Nat.exists_eq_succ_of_ne_zero h0
    rw [hk, Nat.succ_mul, Nat.succ_sub_one]
    omega

theorem infinity_lt (f : BinaryFormat) : f.infinity < pow2 f.magnitudeBits := by
  have he : pow2 f.magnitudeBits = pow2 f.exponentBits * pow2 f.fractionBits := pow_add 2 _ _
  rw [he, BinaryFormat.infinity]
  exact Nat.mul_lt_mul_of_pos_right (Nat.sub_lt (pow2_pos _) Nat.one_pos) (pow2_pos _)

theorem rounded_le_pow2 {num den : Nat} (hn : 0 < num) (hd : 0 < den) :
    roundHalfEven (inUnits num den (unitExponent f num den)).1
      (inUnits num den (unitExponent f num den)).2 ≤ pow2 (f.fractionBits + 1) := by
  refine roundHalfEven_le (inUnits_pos num hd _) ((inUnits_le_iff num hd _ _).mpr ?_)
  rw [cast_pow2, ← zpow_natCast, ← zpow_add₀ (by norm_num)]
  exact (lt_unit hn hd).le

/-- **Rounding does not pass a number of the format.** -/
theorem nearestMagnitude_le_magnitude {num den : Nat} (hd : 0 < den) (x : Binary f)
    (h : (num : ℚ) / den ≤ x.size) : nearestMagnitude f num den ≤ x.magnitude := by
  unfold nearestMagnitude
  split
  · exact Nat.zero_le _
  · rename_i hn
    have hn : 0 < num := Nat.pos_of_ne_zero hn
    refine (Nat.min_le_right _ _).trans ?_
    rw [magnitude_eq x]
    have hxl := leastExponent_le_exponent x
    have hul : f.leastExponent ≤ unitExponent f num den := le_max_left _ _
    -- the unit of the quotient against the unit of the number
    rcases lt_trichotomy (unitExponent f num den) x.exponent with hlt | heq | hgt
    · have hr := rounded_le_pow2 (f := f) hn hd
      have hs := le_significand x (by omega)
      have hm : ((unitExponent f num den - f.leastExponent).toNat + 1) * pow2 f.fractionBits ≤
          (x.exponent - f.leastExponent).toNat * pow2 f.fractionBits :=
        Nat.mul_le_mul_right _ (by omega)
      rw [Nat.succ_mul] at hm
      rw [pow2_succ] at hr
      omega
    · have hr : roundHalfEven (inUnits num den (unitExponent f num den)).1
          (inUnits num den (unitExponent f num den)).2 ≤ x.significand := by
        refine roundHalfEven_le (inUnits_pos num hd _) ((inUnits_le_iff num hd _ _).mpr ?_)
        rw [heq]
        exact h
      rw [heq] at hr ⊢
      exact Nat.add_le_add_left hr _
    · -- a quotient with so great a unit is greater than the number
      have hlow := unit_le (f := f) hn hd (by omega)
      have hsig : (x.significand : ℚ) < 2 ^ (f.fractionBits + 1) := by
        rw [← cast_pow2]
        exact_mod_cast significand_lt x
      have hsize : x.size < 2 ^ ((f.fractionBits : Int) + 1 + x.exponent) := by
        have hz : (2 : ℚ) ^ ((f.fractionBits : Int) + 1 + x.exponent) =
            2 ^ (f.fractionBits + 1) * 2 ^ x.exponent := by
          rw [zpow_add₀ (by norm_num)]
          norm_cast
        rw [hz]
        exact mul_lt_mul_of_pos_right hsig (by positivity)
      have hpow : (2 : ℚ) ^ ((f.fractionBits : Int) + 1 + x.exponent) ≤
          2 ^ (f.fractionBits + unitExponent f num den) :=
        zpow_le_zpow_right₀ (by norm_num) (by omega)
      exact absurd (lt_of_lt_of_le hsize (hpow.trans (hlow.trans h))) (lt_irrefl _)

/-! ### Exact values -/

theorem ofScaled_eq (negative : Bool) (m : Nat) (e : Int) :
    ∃ num den : Nat, 0 < den ∧ (num : ℚ) / den = m * 2 ^ e ∧
      (ofScaled negative m e : Binary f) = nearest negative num den := by
  unfold ofScaled
  split
  · rename_i h
    refine ⟨_, 1, Nat.one_pos, ?_, rfl⟩
    have he : (2 : ℚ) ^ e = 2 ^ e.toNat := by
      conv_lhs => rw [← Int.toNat_of_nonneg h]
      exact zpow_natCast _ _
    push_cast
    rw [cast_pow2, he, div_one]
  · rename_i h
    refine ⟨_, _, pow2_pos _, ?_, rfl⟩
    have he : (2 : ℚ) ^ (-e).toNat * 2 ^ e = 1 := by
      rw [← zpow_natCast, ← zpow_add₀ (by norm_num), Int.toNat_of_nonneg (by omega)]
      simp
    have hp : (2 : ℚ) ^ (-e).toNat ≠ 0 := by positivity
    rw [cast_pow2, div_eq_iff hp, mul_assoc, mul_comm ((2 : ℚ) ^ e), he, mul_one]

theorem ofDyadic_negative (d : Dyadic) :
    (ofDyadic d : Binary f).negative = decide (d.mantissa < 0) := by
  obtain ⟨num, den, -, -, he⟩ :=
    ofScaled_eq (f := f) (decide (d.mantissa < 0)) d.mantissa.natAbs d.exponent
  rw [ofDyadic, he, nearest]
  exact ofMagnitude_negative _ _ (lt_of_le_of_lt (nearestMagnitude_le _ _) (infinity_lt f))

/-- Rounding an exact value does not pass a number of the format. -/
theorem ofDyadic_magnitude_le {d : Dyadic} {x : Binary f} (h : |d.value| ≤ x.size) :
    (ofDyadic d : Binary f).magnitude ≤ x.magnitude := by
  obtain ⟨num, den, hd, hv, he⟩ :=
    ofScaled_eq (f := f) (decide (d.mantissa < 0)) d.mantissa.natAbs d.exponent
  have habs : |d.value| = d.mantissa.natAbs * 2 ^ d.exponent := by
    have hz : (0 : ℚ) ≤ 2 ^ d.exponent := by positivity
    rw [Dyadic.value, abs_mul, abs_of_nonneg hz, Nat.cast_natAbs, Int.cast_abs]
  rw [ofDyadic, he, nearest,
    ofMagnitude_magnitude _ _ (lt_of_le_of_lt (nearestMagnitude_le _ _) (infinity_lt f))]
  refine nearestMagnitude_le_magnitude hd x ?_
  rw [hv, ← habs]
  exact h

theorem dyadic_value {x : Binary f} (h : x.negative = false) : x.dyadic.value = x.size := by
  simp [dyadic, Dyadic.value, size, h]

theorem order_le_magnitude (x : Binary f) : x.order ≤ x.magnitude := by
  unfold order
  split <;> omega

theorem negative_of_order_pos {x : Binary f} (h : 0 < x.order) : x.negative = false := by
  unfold order at h
  split at h
  · omega
  · rename_i hn
    simpa using hn

end Binary

/-! ### Drawn numbers -/

namespace Draw

open Binary

variable {σ : Type} [RandomSource σ] {f : BinaryFormat}

/-- A fraction that is stretched to the range is not negative. -/
theorem stretched_negative {x : Dyadic} (hx : 0 ≤ x.mantissa) {bound : Binary f}
    (hsign : bound.negative = false) :
    (ofDyadic (x.mul (span bound).dyadic) : Binary f).negative = false := by
  have hspan : (span bound).negative = false := by
    rw [span, ofDyadic_negative]
    simp [Dyadic.add, dyadic, hsign]
    positivity
  rw [ofDyadic_negative]
  simp only [Dyadic.mul, dyadic, hspan, decide_eq_false_iff_not, not_lt]
  exact Int.mul_nonneg hx (by simp)

/-- What is not negative and comes out below the bound after it is moved is no further from zero
than the bound. -/
theorem moved_magnitude_le {bound stretched moved : Binary f} (hsign : bound.negative = false)
    (hs : stretched.negative = false)
    (hmoved : moved = .ofDyadic (stretched.dyadic.add bound.dyadic.neg))
    (hless : moved.less bound = true) : moved.magnitude ≤ bound.magnitude := by
  -- above zero the bound is above the number, below zero its opposite is below it
  by_cases hneg : (stretched.dyadic.add bound.dyadic.neg).mantissa < 0
  · have hv := Dyadic.value_add stretched.dyadic bound.dyadic.neg
    rw [Dyadic.value_neg, dyadic_value hs, dyadic_value hsign] at hv
    have hle : (stretched.dyadic.add bound.dyadic.neg).value ≤ 0 := by
      unfold Dyadic.value
      exact mul_nonpos_of_nonpos_of_nonneg (by exact_mod_cast hneg.le) (by positivity)
    rw [hmoved]
    refine ofDyadic_magnitude_le ?_
    rw [abs_of_nonpos hle, hv]
    linarith [size_nonneg stretched]
  · have hmn : moved.negative = false := by
      rw [hmoved, ofDyadic_negative]
      simpa using hneg
    have hord : moved.order < bound.order := by
      simp only [less, Bool.and_eq_true, decide_eq_true_eq] at hless
      exact hless.2
    rw [order, if_neg (by simp [hmn])] at hord
    exact_mod_cast hord.le.trans (order_le_magnitude bound)

/-- A number of a draw between a finite bound and its opposite is finite, whether it was accepted
or the draw settled for the opposite of the bound. -/
theorem floatBelowF_isFinite (w : Width) {bound : Binary f} (hpos : 0 < bound.order)
    (hfin : bound.isFinite = true) (tries : Nat) (s : σ) :
    (floatBelowF w bound tries s).1.isFinite = true := by
  have hsign := negative_of_order_pos hpos
  rw [isFinite_iff] at hfin
  induction tries generalizing s with
  | zero =>
      rw [isFinite_iff]
      refine lt_of_le_of_lt (ofDyadic_magnitude_le ?_) hfin
      rw [Dyadic.value_neg, abs_neg, dyadic_value hsign, abs_of_nonneg (size_nonneg bound)]
  | succ tries ih =>
      rcases hw : fraction w f s with ⟨x, t⟩
      have hx : 0 ≤ x.mantissa := by
        have he : x = (fraction w f s).1 := by rw [hw]
        rw [he]
        exact Int.natCast_nonneg _
      set stretched : Binary f := .ofDyadic (x.mul (span bound).dyadic) with hstretched
      set moved : Binary f := .ofDyadic (stretched.dyadic.add bound.dyadic.neg) with hmoved
      have hstep : floatBelowF w bound (tries + 1) s =
          if moved.less bound then (moved, t) else floatBelowF w bound tries t := by
        rw [floatBelowF]
        simp only [bind, StateT.bind, hw]
        split <;> rfl
      rw [hstep]
      split
      · rename_i hless
        rw [isFinite_iff]
        have hs := stretched_negative hx hsign
        exact (moved_magnitude_le hsign hs hmoved hless).trans_lt hfin
      · exact ih t

/-- **A number that is drawn below a finite bound is finite.** -/
theorem floatBelow_isFinite (w : Width) {bound : Binary f} (hpos : 0 < bound.order)
    (hfin : bound.isFinite = true) (s : σ) : (floatBelow w bound s).1.isFinite = true :=
  floatBelowF_isFinite w hpos hfin patience s

end Draw

end RecordModel
