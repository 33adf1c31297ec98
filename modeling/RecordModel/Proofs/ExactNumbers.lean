/-
**Numbers that rounding leaves alone.**

A quotient that is a number of the format already is rounded to that number.  A number of 32 bits
is also one of 64 bits, whether its significand has a leading one or not, so that it comes back
when it is widened and narrowed again.

Main definitions:

* `Binary.Standard` — a significand and an exponent in the form in which a magnitude holds them.

Main results:

* `Binary.nearestMagnitude_eq_magnitude` — **a number of the format is left alone**;
* `Binary.size_ofMagnitude` — the parts of a magnitude read back;
* `Binary.widen_isFinite`, `Binary.narrow_widen` — **widening loses nothing**.
-/

import RecordModel.Proofs.Rounding

set_option relaxedAutoImplicit false
set_option autoImplicit false

namespace RecordModel.Binary

variable {f : BinaryFormat}

/-! ### Exponents of equal values -/

theorem lt_of_two_zpow_lt {a b : Int} (h : (2 : ℚ) ^ a < 2 ^ b) : a < b :=
  (zpow_lt_zpow_iff_right₀ (by norm_num)).mp h

theorem scaled_lt {s n : Nat} (h : s < pow2 n) (e : Int) :
    (s : ℚ) * 2 ^ e < 2 ^ ((n : Int) + e) := by
  have hs : (s : ℚ) < 2 ^ n := by
    rw [← cast_pow2]
    exact_mod_cast h
  rw [zpow_add₀ (by norm_num), zpow_natCast]
  exact mul_lt_mul_of_pos_right hs (by positivity)

theorem le_scaled {s n : Nat} (h : pow2 n ≤ s) (e : Int) :
    (2 : ℚ) ^ ((n : Int) + e) ≤ s * 2 ^ e := by
  have hs : (2 : ℚ) ^ n ≤ s := by
    rw [← cast_pow2]
    exact_mod_cast h
  rw [zpow_add₀ (by norm_num), zpow_natCast]
  exact mul_le_mul_of_nonneg_right hs (by positivity)

/-- The form in which a magnitude holds a significand and an exponent: the significand has at most
so many bits, and has a leading one unless the exponent is the least one. -/
structure Standard (f : BinaryFormat) (s : Nat) (e : Int) : Prop where
  least_le : f.leastExponent ≤ e
  lt : s < pow2 (f.fractionBits + 1)
  le : f.leastExponent < e → pow2 f.fractionBits ≤ s

/-- The parts of a number are in that form. -/
theorem standard (x : Binary f) : Standard f x.significand x.exponent :=
  ⟨leastExponent_le_exponent x, significand_lt x, le_significand x⟩

/-- A quotient in that form is measured in units of its exponent. -/
theorem unitExponent_of_standard {s : Nat} {e : Int} (h : Standard f s e) {num den : Nat}
    (hn : 0 < num) (hd : 0 < den) (hv : (num : ℚ) / den = s * 2 ^ e) :
    unitExponent f num den = e := by
  have hleast : f.leastExponent ≤ unitExponent f num den := le_max_left _ _
  have hlt := lt_unit (f := f) hn hd
  have hs := scaled_lt h.lt e
  push_cast at hs
  rcases lt_trichotomy (unitExponent f num den) e with hless | heq | hgreater
  · have hle := le_scaled (h.le (by omega)) e
    have := lt_of_two_zpow_lt (hle.trans_lt (hv ▸ hlt))
    omega
  · exact heq
  · have hle := unit_le (f := f) hn hd (by have := h.least_le; omega)
    have := lt_of_two_zpow_lt (hle.trans_lt (hv ▸ hs))
    omega

/-- A quotient that is a whole number of units is that number after rounding. -/
theorem rounded_of_units {num den s : Nat} (hd : 0 < den) {e : Int}
    (hv : (num : ℚ) / den = s * 2 ^ e) :
    roundHalfEven (inUnits num den e).1 (inUnits num den e).2 = s := by
  have hpos := inUnits_pos num hd e
  have hunits := inUnits_value num hd e
  have he : (2 : ℚ) ^ e ≠ 0 := by positivity
  rw [hv, mul_right_comm] at hunits
  have hnat : (inUnits num den e).1 = s * (inUnits num den e).2 := by
    exact_mod_cast mul_right_cancel₀ he hunits
  rw [hnat]
  exact roundHalfEven_exact s _ hpos

/-- The magnitude of a quotient whose value is in the form of the format. -/
theorem nearestMagnitude_of_standard {s : Nat} {e : Int} (h : Standard f s e) {num den : Nat}
    (hd : 0 < den) (hv : (num : ℚ) / den = s * 2 ^ e) :
    nearestMagnitude f num den =
      if s = 0 then 0
      else min f.infinity ((e - f.leastExponent).toNat * pow2 f.fractionBits + s) := by
  have he : (2 : ℚ) ^ e ≠ 0 := by positivity
  have hd' : (den : ℚ) ≠ 0 := by exact_mod_cast hd.ne'
  have hzero : num = 0 ↔ s = 0 := by
    rw [div_eq_iff hd'] at hv
    constructor
    · rintro rfl
      simpa [he, hd'] using hv
    · rintro rfl
      simpa using hv
  unfold nearestMagnitude
  by_cases hs : s = 0
  · rw [if_pos (hzero.mpr hs), if_pos hs]
  · have hn : 0 < num := Nat.pos_of_ne_zero (mt hzero.mp hs)
    rw [if_neg hn.ne', if_neg hs]
    simp only [unitExponent_of_standard h hn hd hv, rounded_of_units hd hv]

/-- **A number of the format is left alone.** -/
theorem nearestMagnitude_eq_magnitude {x : Binary f} (hx : x.isFinite = true) {num den : Nat}
    (hd : 0 < den) (hv : (num : ℚ) / den = x.size) : nearestMagnitude f num den = x.magnitude := by
  rw [isFinite_iff] at hx
  have hm := magnitude_eq x
  rw [nearestMagnitude_of_standard (standard x) hd hv]
  split
  · rename_i hs
    -- without a significand the exponent is the least one
    have he : ¬ f.leastExponent < x.exponent := by
      intro hlt
      have := (standard x).le hlt
      have := pow2_pos f.fractionBits
      omega
    rw [hm, hs, show (x.exponent - f.leastExponent).toNat = 0 by omega, Nat.zero_mul]
  · rw [← hm]
    omega

/-! ### The parts of a magnitude -/

/-- The parts of a magnitude read back. -/
theorem size_ofMagnitude {s : Nat} {e : Int} (h : Standard f s e) {x : Binary f}
    (hx : x.magnitude = (e - f.leastExponent).toNat * pow2 f.fractionBits + s) :
    x.size = s * 2 ^ e := by
  have hpos := pow2_pos f.fractionBits
  have hlt := h.lt
  have hleast := h.least_le
  rw [pow2_succ] at hlt
  by_cases hs : s < pow2 f.fractionBits
  · have he : e = f.leastExponent := by
      by_contra hne
      have := h.le (by omega)
      omega
    have hm : x.magnitude = s := by
      rw [hx, he]
      simp
    have hfield : x.exponentField = 0 := by
      rw [exponentField, hm, Nat.div_eq_of_lt hs]
    have hexp : x.exponent = e := by simp [exponent, hfield, he]
    have hsig : x.significand = s := by
      rw [significand, if_pos hfield, fraction, hm, Nat.mod_eq_of_lt hs]
    rw [size, hexp, hsig]
  · -- the leading one is carried into the field of the exponent
    have hm : x.magnitude = (s - pow2 f.fractionBits) +
        ((e - f.leastExponent).toNat + 1) * pow2 f.fractionBits := by
      rw [hx, Nat.succ_mul]
      omega
    have hrest : s - pow2 f.fractionBits < pow2 f.fractionBits := by omega
    have hfield : x.exponentField = (e - f.leastExponent).toNat + 1 := by
      rw [exponentField, hm, Nat.add_mul_div_right _ _ hpos, Nat.div_eq_of_lt hrest, Nat.zero_add]
    have hexp : x.exponent = e := by
      rw [exponent, hfield]
      omega
    have hsig : x.significand = s := by
      rw [significand, if_neg (by omega), fraction, hm, Nat.add_mul_mod_self_right,
        Nat.mod_eq_of_lt hrest]
      omega
    rw [size, hexp, hsig]

/-! ### Other formats -/

/-- A number is made of its sign and its magnitude. -/
theorem ext_magnitude {x y : Binary f} (hn : x.negative = y.negative)
    (hm : x.magnitude = y.magnitude) : x = y := by
  have hwidth : 2 ^ f.width = pow2 f.magnitudeBits * 2 := pow2_succ _
  have hx := x.bits.isLt
  have hy := y.bits.isLt
  have hdx := Nat.div_add_mod x.bits.toNat (pow2 f.magnitudeBits)
  have hdy := Nat.div_add_mod y.bits.toNat (pow2 f.magnitudeBits)
  have hpos := pow2_pos f.magnitudeBits
  rw [hwidth] at hx hy
  have hsign {b : BitVec f.width} (hb : b.toNat < pow2 f.magnitudeBits * 2) :
      b.toNat / pow2 f.magnitudeBits = if pow2 f.magnitudeBits ≤ b.toNat then 1 else 0 := by
    split
    · rename_i hle
      exact Nat.div_eq_of_lt_le (by omega) (by omega)
    · rename_i hlt
      exact Nat.div_eq_of_lt (by omega)
  have hdiv : x.bits.toNat / pow2 f.magnitudeBits = y.bits.toNat / pow2 f.magnitudeBits := by
    rw [hsign hx, hsign hy]
    simp only [negative, decide_eq_decide] at hn
    simp only [hn]
  have hbits : x.bits.toNat = y.bits.toNat := by
    simp only [magnitude] at hm
    rw [← hdx, ← hdy, hdiv, hm]
  cases x
  cases y
  exact congrArg Binary.mk (BitVec.eq_of_toNat_eq hbits)

theorem isNaN_of_isFinite {x : Binary f} (hx : x.isFinite = true) : x.isNaN = false := by
  by_contra h
  rw [isFinite_eq_false_of_isNaN (by simpa using h)] at hx
  cases hx

/-- A finite number in another format is the rounded value with the same sign. -/
theorem convert_parts {x : Binary f} (hx : x.isFinite = true) (g : BinaryFormat) :
    ∃ num den : Nat, 0 < den ∧ (num : ℚ) / den = x.size ∧
      (x.convert g).magnitude = nearestMagnitude g num den ∧
      (x.convert g).negative = x.negative := by
  have hnan := isNaN_of_isFinite hx
  obtain ⟨num, den, hd, hv, he⟩ := ofScaled_eq (f := g) x.negative x.significand x.exponent
  have hlt := lt_of_le_of_lt (nearestMagnitude_le (f := g) num den) (infinity_lt g)
  have hconvert : x.convert g = nearest x.negative num den := by
    rw [convert, if_neg (by simp [hnan]), if_pos hx, he]
  refine ⟨num, den, hd, hv, ?_, ?_⟩
  · rw [hconvert, nearest, ofMagnitude_magnitude _ _ hlt]
  · rw [hconvert, nearest, ofMagnitude_negative _ _ hlt]

theorem convert_eq_of_size {g : BinaryFormat} {x : Binary f} {y : Binary g}
    (hx : x.isFinite = true) (hy : y.isFinite = true) (hs : x.size = y.size)
    (hn : x.negative = y.negative) : x.convert g = y := by
  obtain ⟨num, den, hd, hv, hm, hsign⟩ := convert_parts hx g
  refine ext_magnitude (hsign.trans hn) (hm.trans ?_)
  exact nearestMagnitude_eq_magnitude hy hd (hv.trans hs)

/-- A number is converted to one of the same size, if its size has the form of the other format and
is not too great. -/
theorem convert_of_standard {g : BinaryFormat} {x : Binary f} (hx : x.isFinite = true) {s : Nat}
    {e : Int} (h : Standard g s e) (hs : s ≠ 0) (hv : (s : ℚ) * 2 ^ e = x.size)
    (hlt : (e - g.leastExponent).toNat * pow2 g.fractionBits + s < g.infinity) :
    (x.convert g).isFinite = true ∧ (x.convert g).size = x.size := by
  obtain ⟨num, den, hd, hratio, hm, -⟩ := convert_parts hx g
  rw [nearestMagnitude_of_standard h hd (hratio.trans hv.symm), if_neg hs,
    Nat.min_eq_right hlt.le] at hm
  refine ⟨?_, ?_⟩
  · rw [isFinite_iff, hm]
    exact hlt
  · rw [size_ofMagnitude h hm, hv]

/-! ### Widening -/

/-- The exponents of the finite numbers of 32 bits. -/
theorem exponent_single_le {x : Binary32} (hx : x.isFinite = true) : x.exponent ≤ 104 := by
  rw [isFinite_iff] at hx
  have hfield : x.exponentField < 255 := by
    rw [exponentField, Nat.div_lt_iff_lt_mul (pow2_pos _)]
    exact hx
  have hleast : BinaryFormat.single.leastExponent = -149 := by decide
  rw [exponent, hleast]
  omega

/-- Zero is zero in every format. -/
theorem widen_parts_of_zero {x : Binary32} (hx : x.isFinite = true) (hs : x.significand = 0) :
    x.widen.isFinite = true ∧ x.widen.size = x.size := by
  have hzero : x.size = 0 := by rw [size, hs]; simp
  obtain ⟨num, den, hd, hv, hm, -⟩ := convert_parts hx .double
  have hstandard : Standard .double 0 BinaryFormat.double.leastExponent :=
    ⟨le_rfl, pow2_pos _, fun h => absurd h (lt_irrefl _)⟩
  rw [nearestMagnitude_of_standard hstandard hd (by rw [hv, hzero]; simp), if_pos rfl] at hm
  refine ⟨?_, ?_⟩
  · rw [isFinite_iff, widen, hm]
    decide
  · rw [widen, size_ofMagnitude hstandard (hm.trans (by simp)), hzero]
    simp

/-- The number of places by which the leading one of a significand moves when it is widened. -/
def shift (x : Binary32) : Nat := 52 - x.significand.log2

/-- The moved significand has its leading one where a significand of 64 bits has it. -/
theorem standard_shift {x : Binary32} (hs : x.significand ≠ 0) :
    Standard .double (x.significand * pow2 x.shift) (x.exponent - x.shift) := by
  have hge := leastExponent_le_exponent x
  rw [show BinaryFormat.single.leastExponent = -149 by decide] at hge
  have hlog : x.significand.log2 < 24 := (Nat.log2_lt hs).mpr (significand_lt x)
  have hlow : 2 ^ x.significand.log2 ≤ x.significand := Nat.log2_self_le hs
  have hhigh : x.significand < 2 ^ (x.significand.log2 + 1) := Nat.lt_log2_self
  have hk : x.significand.log2 + x.shift = BinaryFormat.double.fractionBits := by
    change x.significand.log2 + (52 - x.significand.log2) = 52
    omega
  refine ⟨?_, ?_, fun _ => ?_⟩
  · rw [show BinaryFormat.double.leastExponent = -1074 by decide, shift]
    omega
  · calc x.significand * pow2 x.shift < 2 ^ (x.significand.log2 + 1) * pow2 x.shift :=
          Nat.mul_lt_mul_of_pos_right hhigh (pow2_pos _)
      _ = pow2 (x.significand.log2 + 1 + x.shift) := (pow_add 2 _ _).symm
      _ = pow2 (BinaryFormat.double.fractionBits + 1) := by rw [← hk, Nat.add_right_comm]
  · calc pow2 BinaryFormat.double.fractionBits = pow2 (x.significand.log2 + x.shift) := by rw [hk]
      _ = 2 ^ x.significand.log2 * pow2 x.shift := pow_add 2 _ _
      _ ≤ x.significand * pow2 x.shift := Nat.mul_le_mul_right _ hlow

/-- A finite number of 32 bits is the same number in 64 bits. -/
theorem widen_parts {x : Binary32} (hx : x.isFinite = true) :
    x.widen.isFinite = true ∧ x.widen.size = x.size := by
  by_cases hs : x.significand = 0
  · exact widen_parts_of_zero hx hs
  · have hstandard := standard_shift hs
    refine convert_of_standard hx hstandard ?_ ?_ ?_
    · have := pow2_pos x.shift
      positivity
    · rw [size, zpow_sub₀ (by norm_num), zpow_natCast]
      push_cast
      rw [cast_pow2]
      field_simp
    · have hle := exponent_single_le hx
      have hbits := hstandard.lt
      have hexp : (x.exponent - x.shift - BinaryFormat.double.leastExponent).toNat ≤ 1178 := by
        rw [show BinaryFormat.double.leastExponent = -1074 by decide]
        omega
      calc (x.exponent - x.shift - BinaryFormat.double.leastExponent).toNat *
              pow2 BinaryFormat.double.fractionBits + x.significand * pow2 x.shift
          < 1178 * pow2 BinaryFormat.double.fractionBits +
              pow2 (BinaryFormat.double.fractionBits + 1) :=
            Nat.add_lt_add_of_le_of_lt (Nat.mul_le_mul_right _ hexp) hbits
        _ < BinaryFormat.double.infinity := by decide

theorem widen_isFinite {x : Binary32} (hx : x.isFinite = true) : x.widen.isFinite = true :=
  (widen_parts hx).1

/-- **Widening loses nothing.** -/
theorem narrow_widen {x : Binary32} (hx : x.isFinite = true) : x.widen.narrow = x := by
  obtain ⟨hfinite, hsize⟩ := widen_parts hx
  obtain ⟨-, -, -, -, -, hsign⟩ := convert_parts hx .double
  exact convert_eq_of_size hfinite hx hsize hsign

end RecordModel.Binary
