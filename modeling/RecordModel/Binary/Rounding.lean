/-
**Rounding to the nearest binary number.**

`Binary.nearest` takes a quotient of natural numbers to the number of a format that is nearest to
it.  The quotient is measured in units in the last place, the unit being chosen so that the
significand has the right number of bits, or is the least unit there is; the whole number of units
is rounded, a tie going to the even neighbour; and what comes out, put behind the field of the
exponent, is a magnitude.  A carry out of the significand needs no case of its own, because the
next magnitude after the last one of an exponent is the first one of the next exponent.

All arithmetic on finite numbers is exact arithmetic on dyadic numbers followed by one such
rounding.

Main definitions:

* `roundHalfEven` — the whole number nearest to a quotient, a tie going to the even one;
* `Binary.nearest` — the nearest number of a format;
* `Dyadic`, `Binary.dyadic`, `Binary.ofDyadic` — exact values, and the way to and from them;
* `Binary.times`, `Binary.dividedBy` — products and quotients;
* `Binary.convert` — the nearest number of another format.

Main results:

* `roundHalfEven_near` — rounding moves a quotient by at most half a unit;
* `roundHalfEven_exact` — a whole number is left alone.
-/

import RecordModel.Binary.Basic

set_option relaxedAutoImplicit false
set_option autoImplicit false

namespace RecordModel

/-! ### Whole numbers -/

/-- The whole number nearest to `num / den`; of two equally near ones the even one. -/
def roundHalfEven (num den : Nat) : Nat :=
  let q := num / den
  let r := num % den
  if 2 * r < den then q
  else if den < 2 * r then q + 1
  else if q % 2 = 0 then q
  else q + 1

/-- Rounding moves a quotient by at most half a unit. -/
theorem roundHalfEven_near (num den : Nat) (h : 0 < den) :
    2 * num ≤ 2 * (roundHalfEven num den * den) + den ∧
      2 * (roundHalfEven num den * den) ≤ 2 * num + den := by
  have hd := Nat.div_add_mod num den
  have hm := Nat.mod_lt num h
  have hc : num / den * den = den * (num / den) := Nat.mul_comm _ _
  have hs : (num / den + 1) * den = den * (num / den) + den := by
    rw [Nat.add_mul, Nat.mul_comm, Nat.one_mul]
  unfold roundHalfEven
  constructor <;> (simp only []; repeat' split) <;> omega

theorem roundHalfEven_exact (n den : Nat) (h : 0 < den) : roundHalfEven (n * den) den = n := by
  simp [roundHalfEven, Nat.mul_div_cancel _ h, h]

/-! ### The nearest number of a format -/

namespace Binary

variable {f : BinaryFormat}

/-- The quotient `num / den` in units of `2 ^ e`, as numerator and denominator. -/
def inUnits (num den : Nat) (e : Int) : Nat × Nat :=
  if 0 ≤ e then (num, den * pow2 e.toNat) else (num * pow2 (-e).toNat, den)

/-- The exponent of the unit in which `num / den` has a significand of the format: the first of
two candidates, or the second if the significand would be too long by a bit, but never below the
least exponent of the format. -/
def unitExponent (f : BinaryFormat) (num den : Nat) : Int :=
  let e : Int := (num.log2 : Int) - den.log2 - 1 - f.fractionBits
  let scaled := inUnits num den e
  max f.leastExponent (if pow2 (f.fractionBits + 1) ≤ scaled.1 / scaled.2 then e + 1 else e)

/-- The magnitude nearest to `num / den`. -/
def nearestMagnitude (f : BinaryFormat) (num den : Nat) : Nat :=
  if num = 0 then 0
  else
    let e := unitExponent f num den
    let scaled := inUnits num den e
    min f.infinity
      ((e - f.leastExponent).toNat * pow2 f.fractionBits + roundHalfEven scaled.1 scaled.2)

/-- The number of the given sign that is nearest to `num / den`; a tie goes to the even significand
and what is too great becomes infinite. -/
def nearest (negative : Bool) (num den : Nat) : Binary f :=
  ofMagnitude negative (nearestMagnitude f num den)

theorem nearestMagnitude_le (num den : Nat) : nearestMagnitude f num den ≤ f.infinity := by
  unfold nearestMagnitude
  split
  · exact Nat.zero_le _
  · exact Nat.min_le_left _ _

end Binary

/-! ### Exact values -/

/-- A number `mantissa * 2 ^ exponent`. -/
structure Dyadic where
  mantissa : Int
  exponent : Int

namespace Dyadic

/-- The exact product. -/
def mul (x y : Dyadic) : Dyadic := ⟨x.mantissa * y.mantissa, x.exponent + y.exponent⟩

/-- The exact sum, in units of the smaller exponent. -/
def add (x y : Dyadic) : Dyadic :=
  let e := min x.exponent y.exponent
  ⟨x.mantissa * pow2 (x.exponent - e).toNat + y.mantissa * pow2 (y.exponent - e).toNat, e⟩

/-- The opposite number. -/
def neg (x : Dyadic) : Dyadic := ⟨-x.mantissa, x.exponent⟩

end Dyadic

namespace Binary

variable {f : BinaryFormat}

/-- The exact value of a finite number. -/
def dyadic (x : Binary f) : Dyadic :=
  ⟨if x.negative then -(x.significand : Int) else x.significand, x.exponent⟩

/-- The number of the given sign nearest to `m * 2 ^ e`. -/
def ofScaled (negative : Bool) (m : Nat) (e : Int) : Binary f :=
  if 0 ≤ e then nearest negative (m * pow2 e.toNat) 1 else nearest negative m (pow2 (-e).toNat)

/-- The number nearest to an exact value; zero is positive. -/
def ofDyadic (d : Dyadic) : Binary f :=
  ofScaled (decide (d.mantissa < 0)) d.mantissa.natAbs d.exponent

/-- The product of two finite numbers, rounded. -/
def times (x y : Binary f) : Binary f := ofDyadic (x.dyadic.mul y.dyadic)

/-- The quotient of two finite numbers without signs, rounded; the divisor is not zero. -/
def dividedBy (x y : Binary f) : Binary f :=
  let e := x.exponent - y.exponent
  if 0 ≤ e then nearest false (x.significand * pow2 e.toNat) y.significand
  else nearest false x.significand (y.significand * pow2 (-e).toNat)

/-- The number of the format `g` nearest to `x`; signs, infinities and what is not a number stay
what they are. -/
def convert (g : BinaryFormat) (x : Binary f) : Binary g :=
  if x.isNaN then ofMagnitude x.negative g.quietNaN
  else if x.isFinite then ofScaled x.negative x.significand x.exponent
  else ofMagnitude x.negative g.infinity

/-- The number of 32 bits nearest to one of 64 bits. -/
def narrow (x : Binary64) : Binary32 := x.convert .single

/-- The number of 64 bits equal to one of 32 bits. -/
def widen (x : Binary32) : Binary64 := x.convert .double

example : (nearest false 1 10 : Binary64) = ⟨0x3fb999999999999a⟩ := by decide +kernel
example : (nearest true 1 3 : Binary32) = ⟨0xbeaaaaab⟩ := by decide +kernel
example : (nearest false (pow2 1024) 1 : Binary64).isFinite = false := by decide +kernel
example : dividedBy (nearest false 1 1) (nearest false 3 1) = (⟨0x3fd5555555555555⟩ : Binary64) :=
  by decide +kernel
example : widen ⟨1⟩ = ⟨0x36a0000000000000⟩ := by decide +kernel
example : narrow ⟨0x36a0000000000000⟩ = ⟨1⟩ := by decide +kernel

end Binary

end RecordModel
